import Almyty.Lib.JsValue

/-!
# The text of a JSON value determines it

`JSON.stringify` writes distinct trees as distinct texts. So two values that begin one text are the
same, and the rest is the same (`text_append_inj`).
-/

namespace Almyty.Lib.Json

open List

def isNumberChar (c : Char) : Bool := c.isDigit || c = '-' || c = '+' || c = '.' || c = 'e'

structure NumberTexts (numberText : Rat → String) : Prop where
  injective : ∀ m n, numberText m = numberText n → m = n
  chars : ∀ n, ∀ c ∈ (numberText n).toList, isNumberChar c = true
  lead : ∀ n, ∃ c rest, (numberText n).toList = c :: rest ∧ (c.isDigit = true ∨ c = '-')

/-! ## Strings -/

def hexValue (c : Char) : Nat := if c.isDigit then c.toNat - '0'.toNat else c.toNat - 'a'.toNat + 10

/-- The character an escape stands for. -/
def unescape : List Char → Option (Char × List Char)
  | '\\' :: '"' :: rest => some ('"', rest)
  | '\\' :: '\\' :: rest => some ('\\', rest)
  | '\\' :: 'n' :: rest => some ('\n', rest)
  | '\\' :: 'r' :: rest => some ('\r', rest)
  | '\\' :: 't' :: rest => some ('\t', rest)
  | '\\' :: 'b' :: rest => some (Char.ofNat 8, rest)
  | '\\' :: 'f' :: rest => some (Char.ofNat 12, rest)
  | '\\' :: 'u' :: a :: b :: c :: d :: rest =>
    some (Char.ofNat (((hexValue a * 16 + hexValue b) * 16 + hexValue c) * 16 + hexValue d), rest)
  | '\\' :: _ => none
  | c :: rest => some (c, rest)
  | [] => none

theorem unescape_plain {c : Char} (h : c ≠ '\\') (rest : List Char) :
    unescape (c :: rest) = some (c, rest) := by
  unfold unescape
  split <;> simp_all

theorem hex4_control {n : Nat} (h : n < 32) : ∃ a b c d, (hex4 n).toList = [a, b, c, d] ∧
    ((hexValue a * 16 + hexValue b) * 16 + hexValue c) * 16 + hexValue d = n := by
  have htable : ∀ n < 32, ∃ l, l = List.replicate (4 - (Nat.toDigits 16 n).length) '0' ++
      Nat.toDigits 16 n ∧ l.length = 4 ∧ l.foldl (fun m c => m * 16 + hexValue c) 0 = n := by
    intro n hn
    refine ⟨_, rfl, ?_⟩
    revert n
    decide
  obtain ⟨l, hl, hlength, hvalue⟩ := htable n h
  obtain ⟨a, b, c, d, rfl⟩ : ∃ a b c d, l = [a, b, c, d] := by
    match l, hlength with
    | [a, b, c, d], _ => exact ⟨a, b, c, d, rfl⟩
  refine ⟨a, b, c, d, ?_, ?_⟩
  · rw [hex4, String.toList_ofList, hl]
  · simpa using hvalue

theorem unescape_escaped (c : Char) (rest : List Char) :
    unescape ((escaped c).toList ++ rest) = some (c, rest) := by
  unfold escaped
  split
  · rfl
  · rfl
  · rfl
  · rfl
  · rfl
  · next hquote hslash _ _ _ =>
    have hback (n : Nat) (hn : c.toNat = n) : Char.ofNat n = c := by
      rw [← hn, Char.ofNat_toNat]
    split
    · next h => rw [← hback 8 h]; rfl
    split
    · next h => rw [← hback 12 h]; rfl
    split
    · next h =>
      obtain ⟨a, b, c', d, hhex, hvalue⟩ := hex4_control h
      rw [String.toList_append, hhex]
      show some (Char.ofNat _, rest) = _
      rw [hvalue, Char.ofNat_toNat]
    · have hplain : (c.toString).toList = [c] := by simp
      rw [hplain]
      exact unescape_plain (fun h => hslash h) rest

theorem escaped_lead (c : Char) : ∃ d rest, (escaped c).toList = d :: rest ∧ d ≠ '"' := by
  unfold escaped
  split
  · exact ⟨'\\', ['"'], rfl, by decide⟩
  · exact ⟨'\\', ['\\'], rfl, by decide⟩
  · exact ⟨'\\', ['n'], rfl, by decide⟩
  · exact ⟨'\\', ['r'], rfl, by decide⟩
  · exact ⟨'\\', ['t'], rfl, by decide⟩
  · next hquote _ _ _ _ =>
    split
    · exact ⟨'\\', ['b'], rfl, by decide⟩
    split
    · exact ⟨'\\', ['f'], rfl, by decide⟩
    split
    · exact ⟨'\\', 'u' :: (hex4 c.toNat).toList, by rw [String.toList_append]; rfl, by decide⟩
    · exact ⟨c, [], by simp, fun h => hquote h⟩

def escapes (chars : List Char) : List Char := chars.flatMap fun c => (escaped c).toList

theorem quoted_toList (s : String) : (quoted s).toList = '"' :: (escapes s.toList ++ ['"']) := by
  unfold quoted escapes
  rw [String.toList_append, String.toList_append]
  congr 1
  simp only [String.toList_join, map_map, List.flatMap]
  rfl

theorem escapes_append_inj {a b r s : List Char} (h : escapes a ++ '"' :: r = escapes b ++ '"' :: s) :
    a = b ∧ r = s := by
  induction a generalizing b with
  | nil =>
    cases b with
    | nil => exact ⟨rfl, (List.cons.inj h).2⟩
    | cons d b =>
      obtain ⟨e, rest, hlead, hne⟩ := escaped_lead d
      rw [escapes, escapes, flatMap_cons, hlead] at h
      exact absurd (List.cons.inj h).1.symm hne
  | cons c a ih =>
    cases b with
    | nil =>
      obtain ⟨e, rest, hlead, hne⟩ := escaped_lead c
      rw [escapes, flatMap_cons, hlead] at h
      exact absurd (List.cons.inj h).1 hne
    | cons d b =>
      rw [escapes, escapes, flatMap_cons, flatMap_cons, append_assoc, append_assoc] at h
      have hread := congrArg unescape h
      rw [unescape_escaped, unescape_escaped] at hread
      obtain ⟨rfl, hrest⟩ := Prod.mk.inj (Option.some.inj hread)
      obtain ⟨rfl, hrs⟩ := ih hrest
      exact ⟨rfl, hrs⟩

theorem quoted_append_inj {a b : String} {r s : List Char}
    (h : (quoted a).toList ++ r = (quoted b).toList ++ s) : a = b ∧ r = s := by
  rw [quoted_toList, quoted_toList] at h
  obtain ⟨hchars, hrest⟩ := escapes_append_inj (by simpa using h)
  exact ⟨String.toList_injective hchars, hrest⟩

/-! ## Numbers -/

def EndsNumber (rest : List Char) : Prop := ∀ c ∈ rest.head?, isNumberChar c = false

theorem takeWhile_number {l rest : List Char} (hl : ∀ c ∈ l, isNumberChar c = true)
    (hrest : EndsNumber rest) :
    (l ++ rest).takeWhile isNumberChar = l ∧ (l ++ rest).dropWhile isNumberChar = rest := by
  rw [takeWhile_append_of_pos hl, dropWhile_append_of_pos hl]
  cases rest with
  | nil => simp
  | cons c rest =>
    have hc := hrest c rfl
    simp [hc]

theorem number_append_inj {a b r s : List Char} (ha : ∀ c ∈ a, isNumberChar c = true)
    (hb : ∀ c ∈ b, isNumberChar c = true) (hr : EndsNumber r) (hs : EndsNumber s)
    (h : a ++ r = b ++ s) : a = b ∧ r = s := by
  obtain ⟨htake, hdrop⟩ := takeWhile_number ha hr
  obtain ⟨htake', hdrop'⟩ := takeWhile_number hb hs
  rw [h] at htake hdrop
  exact ⟨htake.symm.trans htake', hdrop.symm.trans hdrop'⟩

/-! ## Values -/

def kindOf (c : Char) : Nat :=
  if c = 'n' then 0
  else if c = 't' then 1
  else if c = 'f' then 2
  else if c = '"' then 3
  else if c = '[' then 4
  else if c = '\x7b' then 5
  else if c.isDigit || c = '-' then 6
  else 7

def kind : Json → Nat
  | .null => 0
  | .bool true => 1
  | .bool false => 2
  | .str _ => 3
  | .arr _ => 4
  | .obj _ => 5
  | .num _ => 6

section

variable {numberText : Rat → String}

def itemsRest (numberText : Rat → String) (items : List Json) : List Char :=
  items.flatMap (fun item => ',' :: (text numberText item).toList) ++ [']']

/-- The texts of entries that follow another, with the brace at the end. -/
def fieldsRest (numberText : Rat → String) (fields : Fields) : List Char :=
  fields.flatMap (fun e => ',' :: ((quoted e.1).toList ++ ':' :: (text numberText e.2).toList)) ++
    ['\x7d']

def itemsBody (numberText : Rat → String) : List Json → List Char
  | [] => [']']
  | item :: items => (text numberText item).toList ++ itemsRest numberText items

/-- What stands behind the opening brace. -/
def fieldsBody (numberText : Rat → String) : Fields → List Char
  | [] => ['\x7d']
  | (key, value) :: fields =>
    (quoted key).toList ++ ':' :: ((text numberText value).toList ++ fieldsRest numberText fields)

theorem intercalate_rest (first : List Char) (rest : List (List Char)) :
    [','].intercalate (first :: rest) = first ++ rest.flatMap (',' :: ·) := by
  induction rest generalizing first with
  | nil => simp
  | cons second rest ih =>
    rw [intercalate_cons_cons, ih second, flatMap_cons]
    simp

theorem itemTexts_eq (items : List Json) :
    itemTexts numberText items = items.map (text numberText) := by
  induction items with
  | nil => rfl
  | cons item items ih => rw [itemTexts, ih, map_cons]

theorem fieldTexts_eq (fields : Fields) :
    fieldTexts numberText fields = fields.map fun e => quoted e.1 ++ ":" ++ text numberText e.2 := by
  induction fields with
  | nil => rfl
  | cons e fields ih => rw [fieldTexts, ih, map_cons]

theorem text_arr (items : List Json) :
    (text numberText (.arr items)).toList = '[' :: itemsBody numberText items := by
  rw [text, String.toList_append, String.toList_append, String.toList_intercalate, itemTexts_eq]
  cases items with
  | nil => rfl
  | cons item items =>
    show '[' :: ([','].intercalate _ ++ [']']) = _
    rw [map_cons, map_cons, intercalate_rest, itemsBody, itemsRest, map_map,
      flatMap_map, append_assoc]
    rfl

theorem text_obj (fields : Fields) :
    (text numberText (.obj fields)).toList = '\x7b' :: fieldsBody numberText fields := by
  rw [text, String.toList_append, String.toList_append, String.toList_intercalate, fieldTexts_eq]
  cases fields with
  | nil => rfl
  | cons e fields =>
    show '\x7b' :: ([','].intercalate _ ++ ['\x7d']) = _
    rw [map_cons, map_cons, intercalate_rest, fieldsBody, fieldsRest, map_map, flatMap_map]
    simp only [Function.comp_def, String.toList_append, append_assoc]
    rfl

theorem kindOf_lead (h : NumberTexts numberText) (j : Json) :
    ∃ c rest, (text numberText j).toList = c :: rest ∧ kindOf c = kind j := by
  cases j with
  | null => exact ⟨'n', ['u', 'l', 'l'], by simp [text], rfl⟩
  | bool b =>
    cases b with
    | true => exact ⟨'t', ['r', 'u', 'e'], by rw [text]; rfl, rfl⟩
    | false => exact ⟨'f', ['a', 'l', 's', 'e'], by rw [text]; rfl, rfl⟩
  | num n =>
    obtain ⟨c, rest, hlead, hc⟩ := h.lead n
    refine ⟨c, rest, hlead, ?_⟩
    rcases hc with hc | rfl
    · unfold kindOf kind
      have hne (d : Char) (hd : d.isDigit = false) : c ≠ d := by
        rintro rfl
        rw [hc] at hd
        cases hd
      rw [if_neg (hne _ (by decide)), if_neg (hne _ (by decide)), if_neg (hne _ (by decide)),
        if_neg (hne _ (by decide)), if_neg (hne _ (by decide)), if_neg (hne _ (by decide)), hc]
      rfl
    · rfl
  | str s => exact ⟨'"', _, by rw [text, quoted_toList], rfl⟩
  | arr items => exact ⟨'[', _, text_arr items, rfl⟩
  | obj fields => exact ⟨'\x7b', _, text_obj fields, rfl⟩

theorem kind_eq (h : NumberTexts numberText) {a b : Json} {r s : List Char}
    (heq : (text numberText a).toList ++ r = (text numberText b).toList ++ s) : kind a = kind b := by
  obtain ⟨c, rest, hc, hkind⟩ := kindOf_lead h a
  obtain ⟨c', rest', hc', hkind'⟩ := kindOf_lead h b
  rw [hc, hc'] at heq
  rw [← hkind, ← hkind', (List.cons.inj heq).1]

theorem endsNumber_itemsRest (items : List Json) (r : List Char) :
    EndsNumber (itemsRest numberText items ++ r) := by
  intro c hc
  cases items with
  | nil =>
    obtain rfl : ']' = c := by simpa [itemsRest] using hc
    decide
  | cons item items =>
    obtain rfl : ',' = c := by simpa [itemsRest] using hc
    decide

theorem endsNumber_fieldsRest (fields : Fields) (r : List Char) :
    EndsNumber (fieldsRest numberText fields ++ r) := by
  intro c hc
  cases fields with
  | nil =>
    obtain rfl : '\x7d' = c := by simpa [fieldsRest] using hc
    decide
  | cons e fields =>
    obtain rfl : ',' = c := by simpa [fieldsRest] using hc
    decide

theorem text_ne_closing (h : NumberTexts numberText) (j : Json) {r s : List Char} {c : Char}
    (hc : kindOf c = 7) : (text numberText j).toList ++ r ≠ c :: s := by
  intro heq
  obtain ⟨d, rest, hlead, hkind⟩ := kindOf_lead h j
  rw [hlead] at heq
  rw [(List.cons.inj heq).1, hc] at hkind
  cases j with
  | bool b => cases b <;> simp [kind] at hkind
  | _ => simp [kind] at hkind

theorem of_kind (a b : Json) (h : kind a = kind b) :
    match a with
    | .null => b = .null
    | .bool x => b = .bool x
    | .num _ => ∃ n, b = .num n
    | .str _ => ∃ t, b = .str t
    | .arr _ => ∃ items, b = .arr items
    | .obj _ => ∃ fields, b = .obj fields := by
  cases a with
  | bool x => cases x <;> cases b with
    | bool y => cases y <;> first | rfl | simp [kind] at h
    | _ => simp [kind] at h
  | _ => cases b with
    | bool y => cases y <;> simp [kind] at h
    | _ => simp [kind] at h ⊢

mutual

theorem text_append_inj (h : NumberTexts numberText) : (a b : Json) → ∀ {r s : List Char},
    EndsNumber r → EndsNumber s →
      (text numberText a).toList ++ r = (text numberText b).toList ++ s → a = b ∧ r = s
  | .null, b, r, s, _, _, heq => by
    have hb : b = .null := of_kind _ _ (kind_eq h heq)
    rw [hb] at heq ⊢
    exact ⟨rfl, append_cancel_left heq⟩
  | .bool x, b, r, s, _, _, heq => by
    have hb : b = .bool x := of_kind _ _ (kind_eq h heq)
    rw [hb] at heq ⊢
    exact ⟨rfl, append_cancel_left heq⟩
  | .num m, b, r, s, hr, hs, heq => by
    obtain ⟨n, rfl⟩ := of_kind _ _ (kind_eq h heq)
    rw [text, text] at heq
    obtain ⟨htext, hrest⟩ := number_append_inj (h.chars m) (h.chars n) hr hs heq
    exact ⟨congrArg _ (h.injective m n (String.toList_injective htext)), hrest⟩
  | .str t, b, r, s, _, _, heq => by
    obtain ⟨u, rfl⟩ := of_kind _ _ (kind_eq h heq)
    rw [text, text] at heq
    obtain ⟨rfl, hrest⟩ := quoted_append_inj heq
    exact ⟨rfl, hrest⟩
  | .arr xs, b, r, s, _, _, heq => by
    obtain ⟨ys, rfl⟩ := of_kind _ _ (kind_eq h heq)
    rw [text_arr, text_arr] at heq
    obtain ⟨rfl, hrest⟩ := itemsBody_inj h xs ys (List.cons.inj heq).2
    exact ⟨rfl, hrest⟩
  | .obj fs, b, r, s, _, _, heq => by
    obtain ⟨gs, rfl⟩ := of_kind _ _ (kind_eq h heq)
    rw [text_obj, text_obj] at heq
    obtain ⟨rfl, hrest⟩ := fieldsBody_inj h fs gs (List.cons.inj heq).2
    exact ⟨rfl, hrest⟩

theorem itemsBody_inj (h : NumberTexts numberText) : (xs ys : List Json) → ∀ {r s : List Char},
    itemsBody numberText xs ++ r = itemsBody numberText ys ++ s → xs = ys ∧ r = s
  | [], [], _, _, heq => ⟨rfl, append_cancel_left heq⟩
  | [], y :: ys, _, _, heq => by
    rw [itemsBody, itemsBody, append_assoc] at heq
    exact absurd heq.symm (text_ne_closing h y rfl)
  | x :: xs, [], _, _, heq => by
    rw [itemsBody, itemsBody, append_assoc] at heq
    exact absurd heq (text_ne_closing h x rfl)
  | x :: xs, y :: ys, r, s, heq => by
    rw [itemsBody, itemsBody, append_assoc, append_assoc] at heq
    obtain ⟨rfl, hrest⟩ := text_append_inj h x y (endsNumber_itemsRest xs r)
      (endsNumber_itemsRest ys s) heq
    obtain ⟨rfl, hrest'⟩ := itemsRest_inj h xs ys hrest
    exact ⟨rfl, hrest'⟩

theorem itemsRest_inj (h : NumberTexts numberText) : (xs ys : List Json) → ∀ {r s : List Char},
    itemsRest numberText xs ++ r = itemsRest numberText ys ++ s → xs = ys ∧ r = s
  | [], [], _, _, heq => ⟨rfl, append_cancel_left heq⟩
  | [], _ :: _, _, _, heq | _ :: _, [], _, _, heq => absurd (List.cons.inj heq).1 (by decide)
  | x :: xs, y :: ys, r, s, heq => by
    have hcons (z : Json) (zs : List Json) (t : List Char) : itemsRest numberText (z :: zs) ++ t
        = ',' :: ((text numberText z).toList ++ (itemsRest numberText zs ++ t)) := by
      simp [itemsRest]
    rw [hcons, hcons] at heq
    obtain ⟨rfl, hrest⟩ := text_append_inj h x y (endsNumber_itemsRest xs r)
      (endsNumber_itemsRest ys s) (List.cons.inj heq).2
    obtain ⟨rfl, hrest'⟩ := itemsRest_inj h xs ys hrest
    exact ⟨rfl, hrest'⟩

theorem fieldsBody_inj (h : NumberTexts numberText) : (fs gs : Fields) → ∀ {r s : List Char},
    fieldsBody numberText fs ++ r = fieldsBody numberText gs ++ s → fs = gs ∧ r = s
  | [], [], _, _, heq => ⟨rfl, append_cancel_left heq⟩
  | [], (_, _) :: _, _, _, heq | (_, _) :: _, [], _, _, heq => by
    rw [fieldsBody, fieldsBody, quoted_toList] at heq
    exact absurd (List.cons.inj heq).1 (by decide)
  | (k, v) :: fs, (k', v') :: gs, r, s, heq => by
    rw [fieldsBody, fieldsBody, append_assoc, append_assoc] at heq
    obtain ⟨rfl, hvalue⟩ := quoted_append_inj heq
    rw [cons_append, cons_append, append_assoc, append_assoc] at hvalue
    obtain ⟨rfl, hrest⟩ := text_append_inj h v v' (endsNumber_fieldsRest fs r)
      (endsNumber_fieldsRest gs s) (List.cons.inj hvalue).2
    obtain ⟨rfl, hrest'⟩ := fieldsRest_inj h fs gs hrest
    exact ⟨rfl, hrest'⟩

theorem fieldsRest_inj (h : NumberTexts numberText) : (fs gs : Fields) → ∀ {r s : List Char},
    fieldsRest numberText fs ++ r = fieldsRest numberText gs ++ s → fs = gs ∧ r = s
  | [], [], _, _, heq => ⟨rfl, append_cancel_left heq⟩
  | [], (_, _) :: _, _, _, heq | (_, _) :: _, [], _, _, heq =>
      absurd (List.cons.inj heq).1 (by decide)
  | (k, v) :: fs, (k', v') :: gs, r, s, heq => by
    have hcons (key : String) (value : Json) (rest : Fields) (t : List Char) :
        fieldsRest numberText ((key, value) :: rest) ++ t = ',' :: ((quoted key).toList ++
          ':' :: ((text numberText value).toList ++ (fieldsRest numberText rest ++ t))) := by
      simp [fieldsRest]
    rw [hcons, hcons] at heq
    obtain ⟨rfl, hvalue⟩ := quoted_append_inj (List.cons.inj heq).2
    obtain ⟨rfl, hrest⟩ := text_append_inj h v v' (endsNumber_fieldsRest fs r)
      (endsNumber_fieldsRest gs s) (List.cons.inj hvalue).2
    obtain ⟨rfl, hrest'⟩ := fieldsRest_inj h fs gs hrest
    exact ⟨rfl, hrest'⟩

end

theorem text_injective (h : NumberTexts numberText) {a b : Json}
    (heq : text numberText a = text numberText b) : a = b :=
  (text_append_inj h a b (r := []) (s := []) (fun _ hc => by cases hc) (fun _ hc => by cases hc)
    (by rw [heq])).1

end

end Almyty.Lib.Json
