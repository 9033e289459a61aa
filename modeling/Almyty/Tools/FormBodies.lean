import Almyty.Lib.FormTree
import Almyty.Tools.QueryStrings

/-!
# Form bodies

`formEncode` in `modules/tools/executors/form-encode.ts` writes the leaves of a body under their
paths in brackets, and is read back as the body without its empty parts (`formEncode_read`).
`encodeFormUrlencoded` in `modules/tools/tool-execution-utils.ts` writes an array's items as
`key[]`, each by its `String`. What an array or an object among them holds is not written, so the
leaves are carried where no such item has any (`form_bodies_iff`).

Mirroring notes:
- Texts are well formed: `encodeURIComponent` throws on others.
- An array is read as the map from its indices, as in the bracket convention the source names.
-/

namespace Almyty.Tools.FormBody

open Almyty.Lib Almyty.Lib.Url Almyty.Lib.Form List
open Almyty.Tools.QueryString (Argument Texts stringOf)

/-! ## The encoders -/

mutual

def walk (key : String) : Argument → List (List Char)
  | .undefined | .null => []
  | .arr items => walkItems key 0 items
  | .obj fields => walkFields key fields
  | .str s => [encodedPart (key, s)]
  | .other text => [encodedPart (key, text)]

def walkItems (key : String) (i : Nat) : List Argument → List (List Char)
  | [] => []
  | item :: items => walk (key ++ ("[" ++ i.repr ++ "]")) item ++ walkItems key (i + 1) items

def walkFields (key : String) : List (String × Argument) → List (List Char)
  | [] => []
  | (k, inner) :: fields => walk (key ++ ("[" ++ k ++ "]")) inner ++ walkFields key fields

end

def formEncode : Argument → List Char
  | .obj fields => joinParts (fields.flatMap fun e => walk e.1 e.2)
  | _ => []

section Flatten

variable (texts : Texts)

def fullKey (outer key : String) : String :=
  if outer = "" then key else outer ++ ("[" ++ key ++ "]")

mutual

def flattenValue (key : String) : Argument → List (String × String)
  | .arr items => items.map fun v => (key ++ "[]", stringOf texts v)
  | .obj fields => flatten key fields
  | .undefined | .null => []
  | .str s => [(key, s)]
  | .other text => [(key, text)]

def flatten (outer : String) : List (String × Argument) → List (String × String)
  | [] => []
  | (key, value) :: fields => flattenValue (fullKey outer key) value ++ flatten outer fields

end

def encodeFormUrlencoded (body : List (String × Argument)) : List Char :=
  joinParts ((flatten texts "" body).map searchParam)

end Flatten

/-! ## Objects, and how a form is read -/

mutual

def WellKeyed : Argument → Prop
  | .arr items => WellKeyedItems items
  | .obj fields => (fields.map (·.1)).Nodup ∧ WellKeyedFields fields
  | _ => True

def WellKeyedItems : List Argument → Prop
  | [] => True
  | item :: items => WellKeyed item ∧ WellKeyedItems items

def WellKeyedFields : List (String × Argument) → Prop
  | [] => True
  | (key, value) :: fields => BracketFree key ∧ WellKeyed value ∧ WellKeyedFields fields

end

structure FormObject where
  fields : List (String × Argument)
  wellKeyed : WellKeyed (.obj fields)

def readTree (step : String → Step) (text : List Char) : Option FormTree :=
  (readForm text).map fun pairs =>
    putAll (pairs.map fun p => (readPath step p.1, p.2)) (.node [])

/-- `[]` is one more item. -/
def appending (name : String) : Step := if name = "" then .append else .key name

def below (key : String) (entries : List (List String × String)) : List (List String × String) :=
  entries.map fun e => (key :: e.1, e.2)

mutual

/-- The scalar leaves of a value by their paths, in order. -/
def leafPaths : Argument → List (List String × String)
  | .arr items => leafPathsOfItems 0 items
  | .obj fields => leafPathsOfFields fields
  | .undefined | .null => []
  | .str s => [([], s)]
  | .other text => [([], text)]

def leafPathsOfItems (i : Nat) : List Argument → List (List String × String)
  | [] => []
  | item :: items => below i.repr (leafPaths item) ++ leafPathsOfItems (i + 1) items

def leafPathsOfFields : List (String × Argument) → List (List String × String)
  | [] => []
  | (key, value) :: fields => below key (leafPaths value) ++ leafPathsOfFields fields

end

mutual

/-- A value without null leaves and empty containers. -/
def pruned : Argument → Option FormTree
  | .arr items => nodeOf (prunedItems 0 items)
  | .obj fields => nodeOf (prunedFields fields)
  | .undefined | .null => none
  | .str s => some (.leaf s)
  | .other text => some (.leaf text)

def prunedItems (i : Nat) : List Argument → Kids
  | [] => []
  | item :: items => kid i.repr (pruned item) ++ prunedItems (i + 1) items

def prunedFields : List (String × Argument) → Kids
  | [] => []
  | (key, value) :: fields => kid key (pruned value) ++ prunedFields fields

end

structure Piece where
  names : List String
  item : Bool
  text : String

def Piece.below (key : String) (p : Piece) : Piece := { p with names := key :: p.names }

section Pieces

variable (texts : Texts)

mutual

def pieces : Argument → List Piece
  | .arr items => items.map fun v => ⟨[], true, stringOf texts v⟩
  | .obj fields => piecesOfFields fields
  | .undefined | .null => []
  | .str s => [⟨[], false, s⟩]
  | .other text => [⟨[], false, text⟩]

def piecesOfFields : List (String × Argument) → List Piece
  | [] => []
  | (key, value) :: fields => (pieces value).map (Piece.below key) ++ piecesOfFields fields

end

mutual

def Named : Argument → Prop
  | .obj fields => NamedFields fields
  | _ => True

def NamedFields : List (String × Argument) → Prop
  | [] => True
  | (key, value) :: fields =>
    (key = "" → pieces texts value = []) ∧ Named value ∧ NamedFields fields

end

/-- Nothing is written under an empty key, but for what stands right under it at the top. -/
def FormObject.Named (o : FormObject) : Prop :=
  ∀ f ∈ o.fields, FormBody.Named texts f.2 ∧
    (f.1 = "" → ∀ inner, f.2 = .obj inner → pieces texts f.2 = [])

end Pieces

mutual

def ItemsBare : Argument → Prop
  | .arr items => ∀ item ∈ items, item.isContainer = true → leafPaths item = []
  | .obj fields => ItemsBareFields fields
  | _ => True

def ItemsBareFields : List (String × Argument) → Prop
  | [] => True
  | (_, value) :: fields => ItemsBare value ∧ ItemsBareFields fields

end

/-- A form body's round trip: the one encoder is read back as the object without its empty parts,
and every leaf is found at its path in what the other wrote. -/
def RoundTrips (texts : Texts) (o : FormObject) : Prop :=
  readTree .key (formEncode (.obj o.fields)) = some (.node (prunedFields o.fields)) ∧
    ∃ tree, readTree appending (encodeFormUrlencoded texts o.fields) = some tree ∧
      ∀ e ∈ leafPathsOfFields o.fields, tree.find e.1 = some e.2

/-! ## `formEncode` -/

section Encode

theorem bracketFree_repr (n : Nat) : BracketFree n.repr := by
  have hdigit : ∀ c ∈ n.repr.toList, c.isDigit = true := by
    intro c hc
    rw [Nat.toList_repr] at hc
    exact Nat.isDigit_of_mem_toDigits (by decide) (by decide) hc
  constructor <;> exact fun hmem => absurd (hdigit _ hmem) (by decide)

theorem wellKeyed_field {fields : List (String × Argument)} (h : WellKeyedFields fields) :
    ∀ f ∈ fields, BracketFree f.1 ∧ WellKeyed f.2 := by
  induction fields with
  | nil => exact fun f hf => absurd hf not_mem_nil
  | cons f fields ih => exact forall_mem_cons.mpr ⟨⟨h.1, h.2.1⟩, ih h.2.2⟩

theorem leafPathsOfItems_eq (i : Nat) (items : List Argument) :
    leafPathsOfItems i items = (numbered i items).flatMap fun f => below f.1 (leafPaths f.2) := by
  induction items generalizing i with
  | nil => rfl
  | cons item items ih => rw [leafPathsOfItems, ih, numbered, flatMap_cons]

theorem leafPathsOfFields_eq (fields : List (String × Argument)) :
    leafPathsOfFields fields = fields.flatMap fun f => below f.1 (leafPaths f.2) := by
  induction fields with
  | nil => rfl
  | cons f fields ih => rw [leafPathsOfFields, ih, flatMap_cons]

theorem prunedItems_eq (i : Nat) (items : List Argument) :
    prunedItems i items = kidsOf pruned (numbered i items) := by
  induction items generalizing i with
  | nil => rfl
  | cons item items ih =>
    rw [prunedItems, ih, numbered, kidsOf, kidsOf, flatMap_cons]

theorem prunedFields_eq (fields : List (String × Argument)) :
    prunedFields fields = kidsOf pruned fields := by
  induction fields with
  | nil => rfl
  | cons f fields ih => rw [prunedFields, ih, kidsOf, kidsOf, flatMap_cons]

def part (key : String) (e : List String × String) : List Char :=
  encodedPart (key ++ bracketed e.1, e.2)

theorem map_part_below (key k : String) (entries : List (List String × String)) :
    (below k entries).map (part key) = entries.map (part (key ++ ("[" ++ k ++ "]"))) := by
  rw [below, map_map]
  refine map_congr_left fun e _ => ?_
  show encodedPart (key ++ bracketed (k :: e.1), e.2) = _
  rw [bracketed_cons, ← String.append_assoc]
  rfl

theorem part_self (key text : String) : part key ([], text) = encodedPart (key, text) := by
  have hnil : bracketed [] = "" := rfl
  rw [part, hnil, String.append_empty]

mutual

theorem walk_eq (key : String) : (v : Argument) → walk key v = (leafPaths v).map (part key)
  | .undefined | .null => rfl
  | .arr items => walkItems_eq key 0 items
  | .obj fields => walkFields_eq key fields
  | .str s => congrArg (fun p => [p]) (part_self key s).symm
  | .other text => congrArg (fun p => [p]) (part_self key text).symm

theorem walkItems_eq (key : String) (i : Nat) :
    (items : List Argument) → walkItems key i items = (leafPathsOfItems i items).map (part key)
  | [] => rfl
  | item :: items => by
    rw [walkItems, leafPathsOfItems, map_append, map_part_below, walk_eq _ item,
      walkItems_eq key (i + 1) items]

theorem walkFields_eq (key : String) :
    (fields : List (String × Argument)) →
      walkFields key fields = (leafPathsOfFields fields).map (part key)
  | [] => rfl
  | (k, inner) :: fields => by
    rw [walkFields, leafPathsOfFields, map_append, map_part_below, walk_eq _ inner,
      walkFields_eq key fields]

end

mutual

theorem names_bracketFree : (v : Argument) → WellKeyed v →
    ∀ e ∈ leafPaths v, ∀ name ∈ e.1, BracketFree name
  | .undefined, _ | .null, _ => fun e he => nomatch he
  | .arr items, h => itemNames_bracketFree 0 items h
  | .obj fields, h => fieldNames_bracketFree fields h.2
  | .str _, _ | .other _, _ => fun e he name hname => by
    rw [mem_singleton.mp he] at hname
    cases hname

theorem itemNames_bracketFree (i : Nat) : (items : List Argument) → WellKeyedItems items →
    ∀ e ∈ leafPathsOfItems i items, ∀ name ∈ e.1, BracketFree name
  | [], _ => fun e he => nomatch he
  | item :: items, h => fun e he name hname => by
    rcases mem_append.mp he with he | he
    · obtain ⟨e', he', rfl⟩ := mem_map.mp he
      rcases mem_cons.mp hname with rfl | hname
      · exact bracketFree_repr i
      · exact names_bracketFree item h.1 e' he' name hname
    · exact itemNames_bracketFree (i + 1) items h.2 e he name hname

theorem fieldNames_bracketFree : (fields : List (String × Argument)) → WellKeyedFields fields →
    ∀ e ∈ leafPathsOfFields fields, ∀ name ∈ e.1, BracketFree name
  | [], _ => fun e he => nomatch he
  | (key, value) :: fields, h => fun e he name hname => by
    rcases mem_append.mp he with he | he
    · obtain ⟨e', he', rfl⟩ := mem_map.mp he
      rcases mem_cons.mp hname with rfl | hname
      · exact h.1
      · exact names_bracketFree value h.2.1 e' he' name hname
    · exact fieldNames_bracketFree fields h.2.2 e he name hname

end

def keyed (e : List String × String) : List Step × String := (e.1.map .key, e.2)

def leafEntries (v : Argument) : Entries := (leafPaths v).map keyed

theorem map_keyed_below (key : String) (entries : List (List String × String)) :
    (below key entries).map keyed = through key (entries.map keyed) := by
  rw [below, through, map_map, map_map]
  rfl

theorem map_keyed_flatMap (fields : List (String × Argument)) :
    (fields.flatMap fun f => below f.1 (leafPaths f.2)).map keyed =
      fields.flatMap fun f => through f.1 (leafEntries f.2) := by
  rw [map_flatMap]
  exact flatMap_congr fun f _ => map_keyed_below f.1 (leafPaths f.2)

mutual

theorem grows_pruned : (v : Argument) → WellKeyed v → Grows (leafEntries v) (pruned v)
  | .undefined, _ | .null, _ => Grows.none
  | .str s, _ => Grows.leaf s
  | .other text, _ => Grows.leaf text
  | .arr items, h => by
    have hitems := growsItems_pruned items h
    rw [leafEntries, leafPaths, leafPathsOfItems_eq, map_keyed_flatMap, pruned, prunedItems_eq]
    exact Grows.fields leafEntries pruned (nodup_numbered 0 items) fun f hf =>
      hitems f.2 (mem_numbered hf).1
  | .obj fields, h => by
    have hfields := growsFields_pruned fields h.2
    rw [leafEntries, leafPaths, leafPathsOfFields_eq, map_keyed_flatMap, pruned, prunedFields_eq]
    exact Grows.fields leafEntries pruned h.1 hfields

theorem growsItems_pruned : (items : List Argument) → WellKeyedItems items →
    ∀ item ∈ items, Grows (leafEntries item) (pruned item)
  | [], _ => fun _ hitem => absurd hitem not_mem_nil
  | item :: items, h =>
    forall_mem_cons.mpr ⟨grows_pruned item h.1, growsItems_pruned items h.2⟩

theorem growsFields_pruned : (fields : List (String × Argument)) → WellKeyedFields fields →
    ∀ f ∈ fields, Grows (leafEntries f.2) (pruned f.2)
  | [], _ => fun _ hf => absurd hf not_mem_nil
  | (_, value) :: fields, h =>
    forall_mem_cons.mpr ⟨grows_pruned value h.2.1, growsFields_pruned fields h.2.2⟩

end

def leafPair (f : String × Argument) (e : List String × String) : String × String :=
  (f.1 ++ bracketed e.1, e.2)

theorem formEncode_read (o : FormObject) :
    readTree .key (formEncode (.obj o.fields)) = some (.node (prunedFields o.fields)) := by
  have hfields := wellKeyed_field o.wellKeyed.2
  have hparts : (o.fields.flatMap fun f => walk f.1 f.2) =
      (o.fields.flatMap fun f => (leafPaths f.2).map (leafPair f)).map encodedPart := by
    rw [map_flatMap]
    refine flatMap_congr fun f _ => ?_
    rw [walk_eq, map_map]
    rfl
  have hentries : ((o.fields.flatMap fun f => (leafPaths f.2).map (leafPair f)).map
      fun p => (readPath .key p.1, p.2)) =
      o.fields.flatMap fun f => through f.1 (leafEntries f.2) := by
    rw [map_flatMap]
    refine flatMap_congr fun f hf => ?_
    rw [map_map, through, leafEntries, map_map]
    refine map_congr_left fun e he => ?_
    have hnames := names_bracketFree f.2 (hfields f hf).2 e he
    have hpath := readPath_bracketed .key (hfields f hf).1.1 fun name hname => (hnames name hname).2
    show (readPath .key (f.1 ++ bracketed e.1), e.2) = _
    rw [hpath]
    rfl
  have hput := putAll_map leafEntries pruned o.wellKeyed.1
    (growsFields_pruned o.fields o.wellKeyed.2)
  rw [readTree, formEncode, hparts, readForm_map formPart_encoded, Option.map_some, hentries, hput,
    prunedFields_eq]

end Encode

/-! ## `encodeFormUrlencoded` -/

section Shown

variable (texts : Texts)

mutual

def shown : Argument → Option FormTree
  | .arr items => nodeOf (listed 0 (items.map (stringOf texts)))
  | .obj fields => nodeOf (shownFields fields)
  | .undefined | .null => none
  | .str s => some (.leaf s)
  | .other text => some (.leaf text)

def shownFields : List (String × Argument) → Kids
  | [] => []
  | (key, value) :: fields => kid key (shown value) ++ shownFields fields

end

theorem piecesOfFields_eq (fields : List (String × Argument)) :
    piecesOfFields texts fields =
      fields.flatMap fun f => (pieces texts f.2).map (Piece.below f.1) := by
  induction fields with
  | nil => rfl
  | cons f fields ih => rw [piecesOfFields, ih, flatMap_cons]

theorem shownFields_eq (fields : List (String × Argument)) :
    shownFields texts fields = kidsOf (shown texts) fields := by
  induction fields with
  | nil => rfl
  | cons f fields ih => rw [shownFields, ih, kidsOf, kidsOf, flatMap_cons]

def Piece.entry (p : Piece) : List Step × String :=
  (p.names.map .key ++ if p.item then [.append] else [], p.text)

def pieceEntries (v : Argument) : Entries := (pieces texts v).map Piece.entry

theorem map_entry_fields (fields : List (String × Argument)) :
    (fields.flatMap fun f => (pieces texts f.2).map (Piece.below f.1)).map Piece.entry =
      fields.flatMap fun f => through f.1 (pieceEntries texts f.2) := by
  rw [map_flatMap]
  refine flatMap_congr fun f _ => ?_
  rw [pieceEntries, through, map_map, map_map]
  rfl

mutual

theorem grows_shown : (v : Argument) → WellKeyed v → Grows (pieceEntries texts v) (shown texts v)
  | .undefined, _ | .null, _ => Grows.none
  | .str s, _ => Grows.leaf s
  | .other text, _ => Grows.leaf text
  | .arr items, _ => by
    have hitems := Grows.items (items.map (stringOf texts))
    rw [map_map] at hitems
    rw [pieceEntries, pieces, map_map, shown]
    exact hitems
  | .obj fields, h => by
    have hfields := growsFields_shown fields h.2
    rw [pieceEntries, pieces, piecesOfFields_eq, map_entry_fields, shown, shownFields_eq]
    exact Grows.fields (pieceEntries texts) (shown texts) h.1 hfields

theorem growsFields_shown : (fields : List (String × Argument)) → WellKeyedFields fields →
    ∀ f ∈ fields, Grows (pieceEntries texts f.2) (shown texts f.2)
  | [], _ => fun _ hf => absurd hf not_mem_nil
  | (_, value) :: fields, h =>
    forall_mem_cons.mpr ⟨grows_shown value h.2.1, growsFields_shown fields h.2.2⟩

end

def Piece.key (outer : String) (p : Piece) : String :=
  p.names.foldl fullKey outer ++ if p.item then "[]" else ""

def Piece.pair (outer : String) (p : Piece) : String × String := (p.key outer, p.text)

theorem map_pair_below (outer key : String) (l : List Piece) :
    (l.map (Piece.below key)).map (Piece.pair outer) = l.map (Piece.pair (fullKey outer key)) := by
  rw [map_map]
  rfl

mutual

theorem flattenValue_eq (key : String) : (v : Argument) →
    flattenValue texts key v = (pieces texts v).map (Piece.pair key)
  | .undefined | .null => rfl
  | .arr items => by
    rw [flattenValue, pieces, map_map]
    rfl
  | .obj fields => flatten_eq key fields
  | .str _ | .other _ => by
    rw [flattenValue, pieces, map_singleton, Piece.pair, Piece.key]
    simp

theorem flatten_eq (outer : String) : (fields : List (String × Argument)) →
    flatten texts outer fields = (piecesOfFields texts fields).map (Piece.pair outer)
  | [] => rfl
  | (key, value) :: fields => by
    rw [flatten, piecesOfFields, map_append, map_pair_below, flattenValue_eq _ value,
      flatten_eq outer fields]

end

theorem bracketed_append (names names' : List String) :
    bracketed (names ++ names') = bracketed names ++ bracketed names' := by
  apply String.toList_injective
  simp [bracketed, String.toList_append]

theorem foldl_fullKey {outer : String} (houter : outer ≠ "") (names : List String) :
    names.foldl fullKey outer = outer ++ bracketed names := by
  induction names generalizing outer with
  | nil => exact (String.append_empty).symm
  | cons name names ih =>
    have hkey : fullKey outer name = outer ++ ("[" ++ name ++ "]") := if_neg houter
    have hne : outer ++ ("[" ++ name ++ "]") ≠ "" := by
      intro h
      exact houter (String.append_eq_empty_iff.mp h).1
    rw [foldl_cons, hkey, ih hne, bracketed_cons, String.append_assoc]

mutual

theorem names_named : (v : Argument) → WellKeyed v → Named texts v →
    ∀ p ∈ pieces texts v, ∀ name ∈ p.names, BracketFree name ∧ name ≠ ""
  | .undefined, _, _ | .null, _, _ => fun p hp => nomatch hp
  | .arr items, _, _ => fun p hp name hname => by
    obtain ⟨item, -, rfl⟩ := mem_map.mp hp
    cases hname
  | .obj fields, h, hnamed => fieldNames_named fields h.2 hnamed
  | .str _, _, _ | .other _, _, _ => fun p hp name hname => by
    rw [mem_singleton.mp hp] at hname
    cases hname

theorem fieldNames_named : (fields : List (String × Argument)) → WellKeyedFields fields →
    NamedFields texts fields →
    ∀ p ∈ piecesOfFields texts fields, ∀ name ∈ p.names, BracketFree name ∧ name ≠ ""
  | [], _, _ => fun p hp => nomatch hp
  | (key, value) :: fields, h, hnamed => fun p hp name hname => by
    rcases mem_append.mp hp with hp | hp
    · obtain ⟨q, hq, rfl⟩ := mem_map.mp hp
      rcases mem_cons.mp hname with rfl | hname
      · refine ⟨h.1, fun hempty => ?_⟩
        rw [hnamed.1 hempty] at hq
        cases hq
      · exact names_named value h.2.1 hnamed.2.1 q hq name hname
    · exact fieldNames_named fields h.2.2 hnamed.2.2 p hp name hname

end

theorem readPath_piece {key : String} (hkey : BracketFree key) {p : Piece}
    (hnames : ∀ name ∈ p.names, BracketFree name ∧ name ≠ "")
    (htop : key = "" → p.names = []) :
    readPath appending (p.key key) = (Piece.below key p).entry.1 := by
  have hinner : ∀ name ∈ p.names ++ (if p.item then [""] else []), ']' ∉ name.toList := by
    intro name hname
    rcases mem_append.mp hname with hname | hname
    · exact (hnames name hname).1.2
    · cases hitem : p.item with
      | false =>
        rw [hitem] at hname
        cases hname
      | true =>
        rw [hitem] at hname
        rw [mem_singleton.mp hname]
        decide
  have hread := readPath_bracketed appending hkey.1 hinner
  have hbrackets : p.key key =
      key ++ bracketed (p.names ++ if p.item then [""] else []) := by
    have hfold : p.names.foldl fullKey key = key ++ bracketed p.names := by
      by_cases hempty : key = ""
      · rw [htop hempty, hempty]
        rfl
      · exact foldl_fullKey hempty p.names
    rw [Piece.key, hfold, bracketed_append, ← String.append_assoc]
    congr 1
    cases p.item <;> rfl
  have hmap : p.names.map appending = p.names.map Step.key :=
    map_congr_left fun name hname => if_neg (hnames name hname).2
  have hlast : (if p.item then [""] else []).map appending =
      if p.item then [Step.append] else [] := by
    cases p.item <;> rfl
  rw [hbrackets, hread, map_append, hmap, hlast]
  rfl

theorem encodeFormUrlencoded_read {o : FormObject} (hnamed : o.Named texts) :
    readTree appending (encodeFormUrlencoded texts o.fields) =
      some (.node (shownFields texts o.fields)) := by
  have hfields := wellKeyed_field o.wellKeyed.2
  have hpairs : flatten texts "" o.fields =
      o.fields.flatMap fun f => (pieces texts f.2).map (Piece.pair f.1) := by
    rw [flatten_eq, piecesOfFields_eq, map_flatMap]
    exact flatMap_congr fun f _ => map_pair_below "" f.1 (pieces texts f.2)
  have hentries : (flatten texts "" o.fields).map (fun p => (readPath appending p.1, p.2)) =
      o.fields.flatMap fun f => through f.1 (pieceEntries texts f.2) := by
    rw [hpairs, ← map_entry_fields, map_flatMap, map_flatMap]
    refine flatMap_congr fun f hf => ?_
    rw [map_map, map_map]
    refine map_congr_left fun p hp => ?_
    obtain ⟨hvalue, htop⟩ := hnamed f hf
    have hread := readPath_piece (hfields f hf).1
      (names_named texts f.2 (hfields f hf).2 hvalue p hp) fun hempty => ?_
    · show (readPath appending (p.key f.1), p.text) = _
      rw [hread]
      rfl
    · cases hv : f.2 with
      | obj inner =>
        rw [htop hempty inner hv] at hp
        cases hp
      | undefined | null =>
        rw [hv] at hp
        cases hp
      | arr items =>
        rw [hv] at hp
        obtain ⟨item, -, rfl⟩ := mem_map.mp hp
        rfl
      | str s | other text =>
        rw [hv] at hp
        rw [mem_singleton.mp hp]
  have hput := putAll_map (pieceEntries texts) (shown texts) o.wellKeyed.1
    (growsFields_shown texts o.fields o.wellKeyed.2)
  rw [readTree, encodeFormUrlencoded, readForm_map formPart_searchParam, Option.map_some, hentries,
    hput, shownFields_eq]

end Shown

/-! ## What is carried -/

section Carried

variable (texts : Texts)

theorem forall_flatMap_below {fields : List (String × Argument)} {P : List String × String → Prop} :
    (∀ e ∈ fields.flatMap fun f => below f.1 (leafPaths f.2), P e) ↔
      ∀ f ∈ fields, ∀ e ∈ leafPaths f.2, P (f.1 :: e.1, e.2) := by
  constructor
  · intro h f hf e he
    exact h _ (mem_flatMap.mpr ⟨f, hf, mem_map.mpr ⟨e, he, rfl⟩⟩)
  · intro h e he
    obtain ⟨f, hf, he⟩ := mem_flatMap.mp he
    obtain ⟨e', he', rfl⟩ := mem_map.mp he
    exact h f hf e' he'

theorem path_of_container {v : Argument} (hv : v.isContainer = true) {e : List String × String}
    (he : e ∈ leafPaths v) : ∃ key keys, e.1 = key :: keys := by
  have hbelow : ∀ fields : List (String × Argument),
      e ∈ fields.flatMap (fun f => below f.1 (leafPaths f.2)) → ∃ key keys, e.1 = key :: keys := by
    intro fields hmem
    obtain ⟨f, -, hf⟩ := mem_flatMap.mp hmem
    obtain ⟨e', -, rfl⟩ := mem_map.mp hf
    exact ⟨f.1, e'.1, rfl⟩
  cases v with
  | arr items =>
    rw [leafPaths, leafPathsOfItems_eq] at he
    exact hbelow _ he
  | obj fields =>
    rw [leafPaths, leafPathsOfFields_eq] at he
    exact hbelow _ he
  | undefined | null => cases he
  | str s | other text => cases hv

theorem find_items_iff (items : List Argument) :
    (∀ e ∈ leafPaths (.arr items), (shown texts (.arr items)).bind (FormTree.find e.1) = some e.2) ↔
      ∀ item ∈ items, item.isContainer = true → leafPaths item = [] := by
  have hfind : ∀ f ∈ numbered 0 items, ∀ keys,
      (shown texts (.arr items)).bind (FormTree.find (f.1 :: keys)) =
        (FormTree.leaf (stringOf texts f.2)).find keys := by
    intro f hf keys
    rw [shown, find_nodeOf, listed_map, lookup_kidsOf _ (nodup_numbered 0 items) hf]
    rfl
  rw [leafPaths, leafPathsOfItems_eq, forall_flatMap_below]
  constructor
  · intro h item hitem hcontainer
    obtain ⟨name, hname⟩ := exists_numbered 0 hitem
    refine eq_nil_iff_forall_not_mem.mpr fun e he => ?_
    obtain ⟨key, keys, hpath⟩ := path_of_container hcontainer he
    have hfound := h (name, item) hname e he
    rw [hfind (name, item) hname, hpath] at hfound
    cases hfound
  · intro h f hf e he
    have hbare := h f.2 (mem_numbered hf).1
    rw [hfind f hf]
    cases hv : f.2 with
    | undefined | null =>
      rw [hv] at he
      cases he
    | str s | other text =>
      rw [hv] at he
      rw [mem_singleton.mp he]
      rfl
    | arr inner | obj inner =>
      rw [hbare (by rw [hv]; rfl)] at he
      cases he

theorem find_fields_iff {fields : List (String × Argument)} (hkeys : (fields.map (·.1)).Nodup) :
    (∀ e ∈ leafPathsOfFields fields,
        (FormTree.node (shownFields texts fields)).find e.1 = some e.2) ↔
      ∀ f ∈ fields, ∀ e ∈ leafPaths f.2, (shown texts f.2).bind (FormTree.find e.1) = some e.2 := by
  rw [leafPathsOfFields_eq, forall_flatMap_below]
  refine forall₂_congr fun f hf => forall₂_congr fun e _ => ?_
  rw [find_kids, FormTree.kids, shownFields_eq, lookup_kidsOf _ hkeys hf]

mutual

theorem find_shown_iff : (v : Argument) → WellKeyed v →
    ((∀ e ∈ leafPaths v, (shown texts v).bind (FormTree.find e.1) = some e.2) ↔ ItemsBare v)
  | .undefined, _ | .null, _ => iff_of_true (fun e he => nomatch he) trivial
  | .str s, _ | .other s, _ =>
    iff_of_true (fun e he => by rw [mem_singleton.mp he]; rfl) trivial
  | .arr items, _ => find_items_iff texts items
  | .obj fields, h => by
    have hnode : (∀ e ∈ leafPathsOfFields fields,
        (nodeOf (shownFields texts fields)).bind (FormTree.find e.1) = some e.2) ↔
        ∀ e ∈ leafPathsOfFields fields,
          (FormTree.node (shownFields texts fields)).find e.1 = some e.2 := by
      rw [leafPathsOfFields_eq, forall_flatMap_below, forall_flatMap_below]
      refine forall₂_congr fun f _ => forall₂_congr fun e _ => ?_
      rw [find_nodeOf, find_kids, FormTree.kids]
    rw [leafPaths, shown, hnode, find_fields_iff texts h.1]
    exact findFields_shown_iff fields h.2

theorem findFields_shown_iff : (fields : List (String × Argument)) → WellKeyedFields fields →
    ((∀ f ∈ fields, ∀ e ∈ leafPaths f.2, (shown texts f.2).bind (FormTree.find e.1) = some e.2) ↔
      ItemsBareFields fields)
  | [], _ => iff_of_true (fun _ hf => absurd hf not_mem_nil) trivial
  | (_, value) :: fields, h => by
    rw [forall_mem_cons, findFields_shown_iff fields h.2.2]
    exact and_congr_left' (find_shown_iff value h.2.1)

end

theorem namedBelow_read {text : List Char} {tree : FormTree}
    (h : readTree appending text = some tree) : NamedBelow tree := by
  obtain ⟨pairs, -, rfl⟩ := Option.map_eq_some_iff.mp h
  refine namedBelow_putAll (fun key keys _ => rfl) fun e he => ?_
  obtain ⟨p, -, rfl⟩ := mem_map.mp he
  refine ⟨_, _, rfl, fun step hstep => ?_⟩
  obtain ⟨piece, -, rfl⟩ := mem_map.mp hstep
  unfold appending
  split
  · exact fun h => nomatch h
  · next hne => exact fun h => hne (Step.key.inj h)

/-- **Form bodies round-trip** where array items are scalars, or have none inside, and no key is
empty. -/
theorem form_bodies_iff (o : FormObject) :
    (o.Named texts ∧ ItemsBareFields o.fields → RoundTrips texts o) ∧
      (RoundTrips texts o → (∀ e ∈ leafPathsOfFields o.fields, "" ∉ e.1.tail) ∧
        (o.Named texts → ItemsBareFields o.fields)) := by
  have hiff := (find_fields_iff texts o.wellKeyed.1).trans
    (findFields_shown_iff texts o.fields o.wellKeyed.2)
  constructor
  · rintro ⟨hnamed, hbare⟩
    exact ⟨formEncode_read o, _, encodeFormUrlencoded_read texts hnamed, hiff.mpr hbare⟩
  · rintro ⟨-, tree, hread, hcarried⟩
    constructor
    · intro e he hempty
      have hfound := hcarried e he
      cases hpath : e.1 with
      | nil =>
        rw [hpath] at hempty
        cases hempty
      | cons key keys =>
        rw [hpath] at hempty hfound
        rw [namedBelow_read hread key keys hempty] at hfound
        cases hfound
    · intro hnamed
      rw [encodeFormUrlencoded_read texts hnamed] at hread
      rw [← Option.some.inj hread] at hcarried
      exact hiff.mp hcarried

/-- `items[0][sku]` of the one encoder is `[object Object]` in the other. -/
theorem item_object_is_lost :
    ∃ (texts : Texts) (o : FormObject), o.fields = [("items", .arr [.obj [("sku", .str "A")]])] ∧
      encodeFormUrlencoded texts o.fields = "items%5B%5D=%5Bobject+Object%5D".toList ∧
      ¬ RoundTrips texts o := by
  have hkeyed : WellKeyed (.obj [("items", .arr [.obj [("sku", .str "A")]])]) := by
    refine ⟨by decide, by decide, ⟨⟨by decide, ?_⟩, trivial⟩, trivial⟩
    exact ⟨by decide, trivial, trivial⟩
  refine ⟨⟨fun _ => "[object Object]", fun _ => none⟩, ⟨_, hkeyed⟩, rfl, ?_, ?_⟩
  · show encodeFormUrlencoded ⟨fun _ => "[object Object]", fun _ => none⟩
      [("items", .arr [.obj [("sku", .str "A")]])] = _
    decide
  · rintro ⟨-, tree, hread, hcarried⟩
    rw [encodeFormUrlencoded_read] at hread
    · rw [← Option.some.inj hread] at hcarried
      have hfound : (FormTree.node (shownFields ⟨fun _ => "[object Object]", fun _ => none⟩
          [("items", .arr [.obj [("sku", .str "A")]])])).find ["items", "0", "sku"] = some "A" :=
        hcarried (["items", "0", "sku"], "A") mem_cons_self
      exact absurd hfound (by decide)
    · intro f hf
      rw [mem_singleton.mp hf]
      exact ⟨trivial, fun hempty => absurd hempty (by decide)⟩

end Carried

end Almyty.Tools.FormBody
