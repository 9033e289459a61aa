import Almyty.Lib.UrlComponent

/-!
# Names and values in a URL

A query string and the body of a form are parts `name=value` with `&` between them. `readPairs`
reads them back: it splits at `&`, at the first `=` of a part, and percent-decodes what it has.

`Writes written text` says that a text is what percent-decoding makes of what was written, whatever
stands behind it. Components that are encoded are written so, and so is every character but `%`,
so a name put together of both is read as it was meant (`readPairs_joinParts`).
-/

namespace Almyty.Lib.Url

open List

/-! ## Percent-decoding -/

def hexValue (c : Char) : Option Nat :=
  if '0' ≤ c ∧ c ≤ '9' then some (c.toNat - 48)
  else if 'A' ≤ c ∧ c ≤ 'F' then some (c.toNat - 55)
  else if 'a' ≤ c ∧ c ≤ 'f' then some (c.toNat - 87)
  else none

def percentBytes : List Char → List UInt8
  | '%' :: high :: low :: rest =>
    match hexValue high, hexValue low with
    | some h, some l => UInt8.ofNat (16 * h + l) :: percentBytes rest
    | _, _ => 37 :: percentBytes (high :: low :: rest)
  | c :: rest => String.utf8EncodeChar c ++ percentBytes rest
  | [] => []

def percentDecode (text : List Char) : Option String :=
  (percentBytes text).toByteArray.utf8Decode?.map fun chars => String.ofList chars.toList

def Writes (written text : List Char) : Prop :=
  ∀ rest, percentBytes (written ++ rest) =
    text.flatMap String.utf8EncodeChar ++ percentBytes rest

variable {c : Char}

theorem percentBytes_cons (hc : c ≠ '%') (rest : List Char) :
    percentBytes (c :: rest) = String.utf8EncodeChar c ++ percentBytes rest := by
  conv_lhs => unfold percentBytes
  split
  · next heq => exact absurd (List.cons.inj heq).1 hc
  · next heq =>
    obtain ⟨rfl, rfl⟩ := List.cons.inj heq
    rfl
  · next heq => cases heq

theorem writes_nil : Writes [] [] := fun _ => rfl

theorem Writes.append {written written' text text' : List Char} (h : Writes written text)
    (h' : Writes written' text') : Writes (written ++ written') (text ++ text') := by
  intro rest
  rw [append_assoc, h, h', flatMap_append, append_assoc]

theorem writes_char (hc : c ≠ '%') : Writes [c] [c] := by
  intro rest
  rw [singleton_append, percentBytes_cons hc, flatMap_singleton]

theorem Writes.concat {written text : List Char} (h : Writes written text) (hc : c ≠ '%') :
    Writes (written ++ [c]) (text ++ [c]) := h.append (writes_char hc)

theorem percentBytes_percentByte (byte : UInt8) (rest : List Char) :
    percentBytes (percentByte byte ++ rest) = byte :: percentBytes rest := by
  have hall : ∀ n < 16, hexValue n.digitChar.toUpper = some n := by decide
  have hlt : byte.toNat < 256 := byte.toNat_lt
  have hhigh := hall (byte.toNat / 16) (by omega)
  have hlow := hall (byte.toNat % 16) (by omega)
  have hbyte : UInt8.ofNat (16 * (byte.toNat / 16) + byte.toNat % 16) = byte := by
    rw [Nat.div_add_mod, UInt8.ofNat_toNat]
  show percentBytes ('%' :: (byte.toNat / 16).digitChar.toUpper ::
    (byte.toNat % 16).digitChar.toUpper :: rest) = _
  rw [percentBytes, hhigh, hlow]
  exact congrArg (· :: percentBytes rest) hbyte

theorem percentBytes_encodedBytes (bytes : List UInt8) (rest : List Char) :
    percentBytes (bytes.flatMap percentByte ++ rest) = bytes ++ percentBytes rest := by
  induction bytes with
  | nil => rfl
  | cons byte bytes ih =>
    rw [flatMap_cons, append_assoc, percentBytes_percentByte, ih, cons_append]

theorem writes_encodedChar (c : Char) : Writes (encodedChar c) [c] := by
  unfold encodedChar
  split
  · next hc =>
    refine writes_char ?_
    rintro rfl
    exact absurd hc (by decide)
  · intro rest
    rw [percentBytes_encodedBytes, flatMap_singleton]

theorem writes_encoded (text : String) : Writes (Js.encodeURIComponent text) text.toList := by
  rw [encodeURIComponent_eq]
  induction text.toList with
  | nil => exact writes_nil
  | cons c chars ih => exact (writes_encodedChar c).append ih

theorem percentDecode_of_writes {written text : List Char} (h : Writes written text) :
    percentDecode written = some (String.ofList text) := by
  have hbytes := h []
  rw [append_nil, percentBytes, append_nil] at hbytes
  have hencode : (percentBytes written).toByteArray = text.utf8Encode := by
    rw [hbytes]
    rfl
  rw [percentDecode, hencode, List.utf8Decode?_utf8Encode, Option.map_some]

/-! ## Parts -/

def joinParts (parts : List (List Char)) : List Char := ['&'].intercalate parts

def readPart (part : List Char) : Option (String × String) := do
  let name ← percentDecode (part.takeWhile (· != '='))
  let value ← percentDecode ((part.dropWhile (· != '=')).drop 1)
  some (name, value)

def readPairs (text : List Char) : Option (List (String × String)) :=
  ((text.splitOn '&').filter (· != [])).mapM readPart

structure WritesPart (part : List Char) (pair : String × String) : Prop where
  no_separator : '&' ∉ part
  split : ∃ name value, part = name ++ '=' :: value ∧ '=' ∉ name ∧
    Writes name pair.1.toList ∧ Writes value pair.2.toList

theorem readPart_of_writes {part : List Char} {pair : String × String} (h : WritesPart part pair) :
    readPart part = some pair := by
  obtain ⟨name, value, rfl, hname, hwritesName, hwritesValue⟩ := h.split
  have hall : ∀ c ∈ name, (c != '=') = true := by
    intro c hc
    rw [bne_iff_ne]
    rintro rfl
    exact hname hc
  have htake : (name ++ '=' :: value).takeWhile (· != '=') = name := by
    rw [takeWhile_append_of_pos hall]
    simp
  have hdrop : ((name ++ '=' :: value).dropWhile (· != '=')).drop 1 = value := by
    rw [dropWhile_append_of_pos hall]
    simp
  rw [readPart, htake, hdrop, percentDecode_of_writes hwritesName,
    percentDecode_of_writes hwritesValue]
  simp

theorem WritesPart.ne_nil {part : List Char} {pair : String × String} (h : WritesPart part pair) :
    part ≠ [] := by
  obtain ⟨name, value, rfl, -⟩ := h.split
  simp

theorem writesParts_flatMap {α : Type} {write : α → List (List Char)}
    {pairs : α → List (String × String)} (l : List α)
    (h : ∀ a, List.Forall₂ WritesPart (write a) (pairs a)) :
    List.Forall₂ WritesPart (l.flatMap write) (l.flatMap pairs) := by
  induction l with
  | nil => exact .nil
  | cons a l ih => exact rel_append (h a) ih

theorem readPairs_joinParts {parts : List (List Char)} {pairs : List (String × String)}
    (h : List.Forall₂ WritesPart parts pairs) : readPairs (joinParts parts) = some pairs := by
  have hsplit : ((joinParts parts).splitOn '&').filter (· != []) = parts := by
    have hall : ∀ part ∈ parts, '&' ∉ part ∧ part ≠ [] := by
      induction h with
      | nil => exact fun part hpart => absurd hpart not_mem_nil
      | cons hpart _ ih =>
        exact forall_mem_cons.mpr ⟨⟨hpart.no_separator, hpart.ne_nil⟩, ih⟩
    cases parts with
    | nil => rfl
    | cons part parts =>
      rw [joinParts, splitOn_intercalate '&' (fun p hp => (hall p hp).1) (by simp)]
      refine filter_eq_self.mpr fun p hp => ?_
      rw [bne_iff_ne]
      exact (hall p hp).2
  rw [readPairs, hsplit]
  clear hsplit
  induction h with
  | nil => rfl
  | cons hpart _ ih =>
    rw [mapM_cons, readPart_of_writes hpart, ih]
    rfl

/-! ## What a component is written in -/

theorem mem_percentByte {byte : UInt8} (h : c ∈ percentByte byte) :
    c.isAlphanum = true ∨ c = '%' := by
  have hall : ∀ n < 16, n.digitChar.toUpper.isAlphanum = true := by decide
  have hlt : byte.toNat < 256 := byte.toNat_lt
  simp only [percentByte, mem_cons, not_mem_nil, or_false] at h
  rcases h with rfl | rfl | rfl
  · exact .inr rfl
  · exact .inl (hall _ (by omega))
  · exact .inl (hall _ (by omega))

theorem mem_encoded {text : String} (h : c ∈ Js.encodeURIComponent text) :
    isUnreserved c = true ∨ c = '%' := by
  rw [encodeURIComponent_eq, mem_flatMap] at h
  obtain ⟨d, -, hd⟩ := h
  unfold encodedChar at hd
  split at hd
  · next hunreserved =>
    rw [mem_singleton.mp hd]
    exact .inl hunreserved
  · obtain ⟨byte, -, hbyte⟩ := mem_flatMap.mp hd
    refine (mem_percentByte hbyte).imp_left fun halnum => ?_
    rw [isUnreserved, halnum, Bool.true_or]

theorem not_mem_encoded (hc : isUnreserved c = false ∧ c ≠ '%') (text : String) :
    c ∉ Js.encodeURIComponent text := by
  intro hmem
  rcases mem_encoded hmem with h | h
  · rw [hc.1] at h
    cases h
  · exact hc.2 h

/-! ## Forms

A form's text has `+` for a space: it is read as a query is once these are spaces again. -/

def unplus (c : Char) : Char := if c = '+' then ' ' else c

def readForm (text : List Char) : Option (List (String × String)) := readPairs (text.map unplus)

def FormPart (part : List Char) (pair : String × String) : Prop :=
  WritesPart (part.map unplus) pair

/-- `name=value`, each by `encodeURIComponent`. -/
def encodedPart (pair : String × String) : List Char :=
  Js.encodeURIComponent pair.1 ++ '=' :: Js.encodeURIComponent pair.2

def isFormSafe (c : Char) : Bool := c.isAlphanum || "*-._".toList.contains c

/-- What `URLSearchParams` writes of a character. -/
def formChar (c : Char) : List Char :=
  if c = ' ' then ['+']
  else if isFormSafe c then [c]
  else (String.utf8EncodeChar c).flatMap percentByte

def formComponent (text : String) : List Char := text.toList.flatMap formChar

def searchParam (pair : String × String) : List Char :=
  formComponent pair.1 ++ '=' :: formComponent pair.2

theorem joinParts_map (parts : List (List Char)) :
    (joinParts parts).map unplus = joinParts (parts.map fun part => part.map unplus) := by
  unfold joinParts
  induction parts with
  | nil => rfl
  | cons part parts ih =>
    cases parts with
    | nil => simp
    | cons next parts =>
      simp only [map_cons, intercalate_cons_cons, map_append] at ih ⊢
      rw [ih]
      rfl

theorem readForm_joinParts {parts : List (List Char)} {pairs : List (String × String)}
    (h : List.Forall₂ FormPart parts pairs) : readForm (joinParts parts) = some pairs := by
  rw [readForm, joinParts_map]
  refine readPairs_joinParts ?_
  induction h with
  | nil => exact .nil
  | cons hpart _ ih => exact .cons hpart ih

theorem unplus_encoded (text : String) :
    (Js.encodeURIComponent text).map unplus = Js.encodeURIComponent text := by
  conv_rhs => rw [← map_id (Js.encodeURIComponent text)]
  refine map_congr_left fun c hc => ?_
  have hplus : c ≠ '+' := by
    rintro rfl
    exact not_mem_encoded (by decide) text hc
  exact if_neg hplus

theorem formPart_encoded (pair : String × String) : FormPart (encodedPart pair) pair := by
  have hpart : (encodedPart pair).map unplus = encodedPart pair := by
    rw [encodedPart, map_append, map_cons, unplus_encoded, unplus_encoded]
    rfl
  rw [FormPart, hpart]
  refine ⟨?_, _, _, rfl, not_mem_encoded (by decide) _, writes_encoded _, writes_encoded _⟩
  rw [encodedPart, mem_append, mem_cons]
  rintro (h | h | h)
  · exact not_mem_encoded (by decide) _ h
  · exact absurd h (by decide)
  · exact not_mem_encoded (by decide) _ h

theorem formChar_writes (c : Char) : Writes ((formChar c).map unplus) [c] ∧
    '&' ∉ (formChar c).map unplus ∧ '=' ∉ (formChar c).map unplus := by
  unfold formChar
  split
  · next hspace =>
    rw [hspace]
    exact ⟨writes_char (c := ' ') (by decide), by decide, by decide⟩
  · split
    · next hsafe =>
      have hne : ∀ d, isFormSafe d = false → c ≠ d := by
        rintro d hd rfl
        rw [hd] at hsafe
        cases hsafe
      have hmap : [c].map unplus = [c] := by
        rw [map_singleton, unplus, if_neg (hne '+' (by decide))]
      rw [hmap]
      refine ⟨writes_char (hne '%' (by decide)), ?_, ?_⟩
      · exact fun hmem => hne '&' (by decide) (mem_singleton.mp hmem).symm
      · exact fun hmem => hne '=' (by decide) (mem_singleton.mp hmem).symm
    · have hmem : ∀ d ∈ (String.utf8EncodeChar c).flatMap percentByte,
          d.isAlphanum = true ∨ d = '%' := fun d hd =>
        let ⟨_, _, hbyte⟩ := mem_flatMap.mp hd
        mem_percentByte hbyte
      have hnot : ∀ d : Char, d.isAlphanum = false → d ≠ '%' →
          d ∉ (String.utf8EncodeChar c).flatMap percentByte := by
        intro d hd hpercent hin
        rcases hmem d hin with h | h
        · rw [hd] at h
          cases h
        · exact hpercent h
      have hmap : ((String.utf8EncodeChar c).flatMap percentByte).map unplus =
          (String.utf8EncodeChar c).flatMap percentByte := by
        conv_rhs => rw [← map_id ((String.utf8EncodeChar c).flatMap percentByte)]
        refine map_congr_left fun d hd => if_neg ?_
        rintro rfl
        exact hnot '+' (by decide) (by decide) hd
      rw [hmap]
      refine ⟨fun rest => ?_, hnot '&' (by decide) (by decide), hnot '=' (by decide) (by decide)⟩
      rw [percentBytes_encodedBytes, flatMap_singleton]

theorem formComponent_writes (text : String) :
    Writes ((formComponent text).map unplus) text.toList ∧
      '&' ∉ (formComponent text).map unplus ∧ '=' ∉ (formComponent text).map unplus := by
  unfold formComponent
  induction text.toList with
  | nil => exact ⟨writes_nil, not_mem_nil, not_mem_nil⟩
  | cons c chars ih =>
    obtain ⟨hwrites, hamp, hequals⟩ := formChar_writes c
    rw [flatMap_cons, map_append, mem_append, mem_append]
    exact ⟨hwrites.append ih.1, not_or.mpr ⟨hamp, ih.2.1⟩, not_or.mpr ⟨hequals, ih.2.2⟩⟩

theorem formPart_searchParam (pair : String × String) : FormPart (searchParam pair) pair := by
  obtain ⟨hname, hamp, hequals⟩ := formComponent_writes pair.1
  obtain ⟨hvalue, hamp', -⟩ := formComponent_writes pair.2
  have hpart : (searchParam pair).map unplus =
      (formComponent pair.1).map unplus ++ '=' :: (formComponent pair.2).map unplus := by
    rw [searchParam, map_append, map_cons]
    rfl
  rw [FormPart, hpart]
  refine ⟨?_, _, _, rfl, hequals, hname, hvalue⟩
  rw [mem_append, mem_cons]
  rintro (h | h | h)
  · exact hamp h
  · exact absurd h (by decide)
  · exact hamp' h

theorem readForm_map {write : String × String → List Char}
    (h : ∀ pair, FormPart (write pair) pair) (pairs : List (String × String)) :
    readForm (joinParts (pairs.map write)) = some pairs := by
  refine readForm_joinParts ?_
  induction pairs with
  | nil => exact .nil
  | cons pair pairs ih => exact .cons (h pair) ih

end Almyty.Lib.Url
