import Mathlib

/-!
# UTF-8 read in pieces

`decode` reads bytes the way a decoder with replacement does: a character where one stands, and
otherwise one replacement character for the longest beginning of one. Bytes of a text that are cut
into chunks, each decoded by itself, show at every cut inside a character: each of its parts leaves
a replacement character (`decode_chunks`).
-/

namespace Almyty.Lib.Utf8

open List

def REPLACEMENT : Char := '\uFFFD'

def encode (text : List Char) : List UInt8 := text.flatMap String.utf8EncodeChar

/-- The length of what one replacement character stands for: a byte that begins no character, or a
beginning that does not go on as its character must. -/
def illFormed : List UInt8 → Nat
  | [] => 0
  | b :: rest =>
    let (more, low, high) : Nat × UInt8 × UInt8 :=
      if ¬ b.IsUTF8FirstByte ∨ b < 0xe0 ∨ 0xf4 < b then (0, 0x80, 0xbf)
      else if b < 0xf0 then
        (1, if b = 0xe0 then 0xa0 else 0x80, if b = 0xed then 0x9f else 0xbf)
      else (2, if b = 0xf0 then 0x90 else 0x80, if b = 0xf4 then 0x8f else 0xbf)
    match rest.take more with
    | [] => 1
    | c :: next =>
      if low ≤ c ∧ c ≤ high then 2 + (next.takeWhile fun d => 0x80 ≤ d ∧ d ≤ 0xbf).length else 1

/-- `decode` of what follows the first `skip` bytes. -/
def decodeFrom : Nat → List UInt8 → List Char
  | _, [] => []
  | skip + 1, _ :: rest => decodeFrom skip rest
  | 0, b :: rest =>
    match (b :: rest).toByteArray.utf8DecodeChar? 0 with
    | some c => c :: decodeFrom (c.utf8Size - 1) rest
    | none => REPLACEMENT :: decodeFrom (illFormed (b :: rest) - 1) rest

def decode (bytes : List UInt8) : List Char := decodeFrom 0 bytes

theorem decodeFrom_eq (skip : Nat) (bytes : List UInt8) :
    decodeFrom skip bytes = decode (bytes.drop skip) := by
  induction bytes generalizing skip with
  | nil => cases skip <;> rfl
  | cons b bytes ih =>
    cases skip with
    | zero => rfl
    | succ skip => exact ih skip

variable {c : Char} {bytes rest : List UInt8}

theorem utf8DecodeChar?_eq_some_iff :
    bytes.toByteArray.utf8DecodeChar? 0 = some c ↔ String.utf8EncodeChar c <+: bytes := by
  constructor
  · intro h
    obtain ⟨rest, hrest⟩ := ByteArray.exists_of_utf8DecodeChar?_eq_some h
    refine ⟨rest.data.toList, ?_⟩
    have := congrArg (·.data.toList) hrest
    simpa using this.symm
  · intro ⟨rest, hrest⟩
    rw [← hrest, List.toByteArray_append]
    exact ByteArray.utf8DecodeChar?_utf8EncodeChar_append

theorem not_first_of_mem_tail {b : UInt8} (h : b ∈ (String.utf8EncodeChar c).tail) :
    ¬ b.IsUTF8FirstByte := by
  obtain ⟨i, hi, rfl⟩ := getElem_of_mem h
  rw [getElem_tail, UInt8.isUTF8FirstByte_getElem_utf8EncodeChar]
  exact Nat.succ_ne_zero i

theorem utf8DecodeChar?_cons_eq_none {b : UInt8} (h : ¬ b.IsUTF8FirstByte) :
    (b :: rest).toByteArray.utf8DecodeChar? 0 = none := by
  refine Option.eq_none_iff_forall_ne_some.mpr fun c hc => h ?_
  obtain ⟨rest', hbytes⟩ := utf8DecodeChar?_eq_some_iff.mp hc
  have hfirst := UInt8.isUTF8FirstByte_getElem_zero_utf8EncodeChar (c := c)
  have hpos := length_pos_of_ne_nil (@String.utf8EncodeChar_ne_nil c)
  have hbyte : (String.utf8EncodeChar c)[0] = b := by
    have := congrArg (·[0]?) hbytes
    simpa [getElem?_append_left hpos, getElem?_eq_getElem hpos] using this
  exact hbyte ▸ hfirst

theorem decode_encodeChar : decode (String.utf8EncodeChar c ++ rest) = c :: decode rest := by
  have hsize := String.length_utf8EncodeChar c
  have hread := utf8DecodeChar?_eq_some_iff.mpr (prefix_append (String.utf8EncodeChar c) rest)
  cases heq : String.utf8EncodeChar c with
  | nil => exact absurd heq String.utf8EncodeChar_ne_nil
  | cons first tail =>
    rw [heq] at hsize hread
    show (match (first :: (tail ++ rest)).toByteArray.utf8DecodeChar? 0 with
      | some c => c :: decodeFrom (c.utf8Size - 1) (tail ++ rest)
      | none => _) = _
    rw [cons_append] at hread
    rw [hread]
    dsimp only
    rw [← hsize, decodeFrom_eq, length_cons, Nat.add_sub_cancel, drop_left]

theorem decode_encode (text : List Char) (rest : List UInt8) :
    decode (encode text ++ rest) = text ++ decode rest := by
  induction text with
  | nil => rfl
  | cons c text ih =>
    show decode ((String.utf8EncodeChar c ++ encode text) ++ rest) = _
    rw [append_assoc, decode_encodeChar, ih, cons_append]

theorem decode_encode_self (text : List Char) : decode (encode text) = text := by
  have := decode_encode text []
  rwa [append_nil, show decode [] = [] from rfl, append_nil] at this

/-- Bytes that begin no character. -/
theorem decode_tails {tails : List UInt8} (h : ∀ b ∈ tails, ¬ b.IsUTF8FirstByte) :
    decode (tails ++ rest) = replicate tails.length REPLACEMENT ++ decode rest := by
  induction tails with
  | nil => rfl
  | cons b tails ih =>
    obtain ⟨hb, htails⟩ := forall_mem_cons.mp h
    show (match (b :: (tails ++ rest)).toByteArray.utf8DecodeChar? 0 with
      | some c => _
      | none => REPLACEMENT :: decodeFrom (illFormed (b :: (tails ++ rest)) - 1) (tails ++ rest)) = _
    have hlength : illFormed (b :: (tails ++ rest)) = 1 := by
      simp [illFormed, hb]
    rw [utf8DecodeChar?_cons_eq_none hb, hlength]
    exact congrArg (REPLACEMENT :: ·) (ih htails)

/-- A beginning of a character. -/
theorem replacement_mem_decode {front back : List UInt8} (hfront : front ≠ []) (hback : back ≠ [])
    (h : String.utf8EncodeChar c = front ++ back) : REPLACEMENT ∈ decode front := by
  have hnone : front.toByteArray.utf8DecodeChar? 0 = none := by
    refine Option.eq_none_iff_forall_ne_some.mpr fun d hd => hback ?_
    -- a character that stands there would be the whole of `c`
    have hprefix := utf8DecodeChar?_eq_some_iff.mp hd
    have hsame := utf8DecodeChar?_eq_some_iff.mpr (h ▸ hprefix.trans (prefix_append front back))
    rw [utf8DecodeChar?_eq_some_iff.mpr prefix_rfl, Option.some.injEq] at hsame
    have hle := (hsame ▸ hprefix).length_le
    rw [h, length_append] at hle
    exact eq_nil_of_length_eq_zero (by omega)
  cases front with
  | nil => exact absurd rfl hfront
  | cons b front =>
    show REPLACEMENT ∈ (match (b :: front).toByteArray.utf8DecodeChar? 0 with
      | some c => _
      | none => REPLACEMENT :: _)
    rw [hnone]
    exact mem_cons_self

/-! ## Chunks -/

/-- A cut of a text's bytes stands between two characters or inside one. -/
theorem encode_cut {text : List Char} {front back : List UInt8} (h : front ++ back = encode text) :
    ∃ before after, text = before ++ after ∧
      (front = encode before ∧ back = encode after ∨
        ∃ c after' head tail, after = c :: after' ∧ String.utf8EncodeChar c = head ++ tail ∧
          head ≠ [] ∧ tail ≠ [] ∧ front = encode before ++ head ∧ back = tail ++ encode after') := by
  induction text generalizing front with
  | nil =>
    obtain ⟨rfl, rfl⟩ := append_eq_nil_iff.mp h
    exact ⟨[], [], rfl, .inl ⟨rfl, rfl⟩⟩
  | cons c text ih =>
    have h' : front ++ back = String.utf8EncodeChar c ++ encode text := h
    rcases append_eq_append_iff.mp h' with ⟨tail, hc, hback⟩ | ⟨front', rfl, hrest⟩
    · by_cases hhead : front = []
      · subst hhead
        exact ⟨[], c :: text, rfl, .inl ⟨rfl, h⟩⟩
      by_cases htail : tail = []
      · subst htail
        refine ⟨[c], text, rfl, .inl ⟨?_, hback⟩⟩
        simpa [encode] using hc.symm
      · exact ⟨[], c :: text, rfl, .inr ⟨c, text, front, tail, rfl, hc, hhead, htail, rfl, hback⟩⟩
    · obtain ⟨before, after, rfl, hcut⟩ := ih hrest.symm
      refine ⟨c :: before, after, rfl, ?_⟩
      rcases hcut with ⟨rfl, hback⟩ | ⟨d, after', head, tail, hafter, hd, hhead, htail, rfl, hback⟩
      · exact .inl ⟨rfl, hback⟩
      · refine .inr ⟨d, after', head, tail, hafter, hd, hhead, htail, ?_, hback⟩
        rw [← append_assoc]
        rfl

def Whole (chunk : List UInt8) : Prop := ∃ part, chunk = encode part

theorem count_decode_chunks {chunks : List (List UInt8)} {tails : List UInt8} {text : List Char}
    (htails : ∀ b ∈ tails, ¬ b.IsUTF8FirstByte) (h : chunks.flatten = tails ++ encode text) :
    text.count REPLACEMENT ≤ (chunks.flatMap decode).count REPLACEMENT ∧
      (tails ≠ [] ∨ (∃ chunk ∈ chunks, ¬ Whole chunk) →
        text.count REPLACEMENT < (chunks.flatMap decode).count REPLACEMENT) := by
  have hnone : ∀ b ∈ ([] : List UInt8), ¬ b.IsUTF8FirstByte := fun _ h => absurd h not_mem_nil
  induction chunks generalizing tails text with
  | nil =>
    obtain ⟨rfl, hencode⟩ := append_eq_nil_iff.mp h.symm
    have htext : text = [] := by
      cases text with
      | nil => rfl
      | cons c text => exact absurd (append_eq_nil_iff.mp hencode).1 String.utf8EncodeChar_ne_nil
    simp [htext]
  | cons chunk chunks ih =>
    rw [flatten_cons] at h
    rw [flatMap_cons, count_append]
    rcases append_eq_append_iff.mp h with ⟨tails', rfl, hrest⟩ | ⟨chunk', rfl, hrest⟩
    · -- the chunk ends in the middle of the character it began in
      obtain ⟨hle, hlt⟩ := ih (fun b hb => htails b (mem_append_right _ hb)) hrest
      have hdecoded := @decode_tails [] _ fun b hb => htails b (mem_append_left tails' hb)
      rw [append_nil] at hdecoded
      rw [hdecoded]
      simp only [count_append, count_replicate_self]
      cases chunk with
      | nil =>
        refine ⟨by simpa [decode, decodeFrom] using hle, fun hcut => ?_⟩
        have := hlt (by simpa [show Whole [] from ⟨[], rfl⟩] using hcut)
        simpa [decode, decodeFrom] using this
      | cons b chunk =>
        rw [length_cons]
        refine ⟨by omega, fun _ => by omega⟩
    · rw [decode_tails htails, count_append, count_replicate_self]
      obtain ⟨before, after, rfl, hcut⟩ := encode_cut hrest.symm
      rw [count_append]
      rcases hcut with ⟨rfl, hback⟩ | ⟨c, after', head, tail, rfl, hc, hhead, htail, rfl, hback⟩
      · obtain ⟨hle, hlt⟩ := ih hnone hback
        rw [decode_encode_self]
        refine ⟨by omega, fun hsome => ?_⟩
        by_cases hempty : tails = []
        · subst hempty
          have hwhole : Whole (encode before) := ⟨before, rfl⟩
          have := hlt (.inr (by simpa [hwhole] using hsome))
          omega
        · have := length_pos_of_ne_nil hempty
          omega
      · have hlast (b : UInt8) (hb : b ∈ tail) : ¬ b.IsUTF8FirstByte := by
          refine not_first_of_mem_tail (c := c) ?_
          rw [hc, tail_append_of_ne_nil hhead]
          exact mem_append_right _ hb
        have hlt := (ih hlast hback).2 (.inl htail)
        have hshown := count_pos_iff.mpr (replacement_mem_decode hhead htail hc)
        have hone : ([c] : List Char).count REPLACEMENT ≤ 1 := count_le_length
        rw [decode_encode, count_append, ← singleton_append, count_append]
        exact ⟨by omega, fun _ => by omega⟩

/-- The chunks of a text, each decoded by itself, are the text exactly when no character is cut. -/
theorem decode_chunks {chunks : List (List UInt8)} {text : List Char}
    (h : chunks.flatten = encode text) :
    ((∀ chunk ∈ chunks, Whole chunk) → chunks.flatMap decode = text) ∧
      ((chunks.flatMap decode).count REPLACEMENT = text.count REPLACEMENT →
        ∀ chunk ∈ chunks, Whole chunk) := by
  refine ⟨fun hwhole => ?_, fun hcount chunk hmem => ?_⟩
  · have hread : decode chunks.flatten = chunks.flatMap decode := by
      clear h
      induction chunks with
      | nil => rfl
      | cons chunk chunks ih =>
        obtain ⟨⟨part, rfl⟩, hrest⟩ := forall_mem_cons.mp hwhole
        rw [flatten_cons, flatMap_cons, decode_encode, ih hrest, decode_encode_self]
    rw [← hread, h, decode_encode_self]
  · by_contra hcut
    have htails : ∀ b ∈ ([] : List UInt8), ¬ b.IsUTF8FirstByte := fun _ h => absurd h not_mem_nil
    have hlt := (count_decode_chunks htails h).2 (.inr ⟨chunk, hmem, hcut⟩)
    omega

end Almyty.Lib.Utf8
