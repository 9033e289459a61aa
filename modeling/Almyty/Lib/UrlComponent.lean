import Almyty.Lib.Url
import Almyty.Lib.Utf8

/-!
# A component in a URL

`encodeURIComponent` writes a value in characters that neither end a path segment nor are encoded
again by the URL parser, so a value's segment is read as it is written (`encoded_plain`). It leaves
dots as they are: the segment is one of dots exactly where the value is (`isSingleDot_encoded`,
`isDoubleDot_encoded`).
-/

namespace Almyty.Lib.Url

open List

/-- A character the parser takes as it is, inside a segment. -/
def isPlain (c : Char) : Bool := !isDelimiter c && !isControl c && !pathSet c

def isUnreserved (c : Char) : Bool := c.isAlphanum || "-_.!~*'()".toList.contains c

/-- What `encodeURIComponent` writes of a character. -/
def encodedChar (c : Char) : List Char :=
  if isUnreserved c then [c] else (String.utf8EncodeChar c).flatMap percentByte

theorem encodeURIComponent_eq (text : String) :
    Js.encodeURIComponent text = text.toList.flatMap encodedChar := rfl

variable {c : Char}

theorem ascii_induction {p : Char → Prop} (hc : c.toNat < 127) (h : ∀ n < 127, p (Char.ofNat n)) :
    p c := by
  have hn := h c.toNat hc
  rwa [Char.ofNat_toNat] at hn

theorem unreserved_ascii (h : isUnreserved c = true) : c.toNat < 127 := by
  have hmarks : ∀ d ∈ "-_.!~*'()".toList, d.toNat < 127 :=
    Js.forall_mem_of_all (by decide)
  rw [isUnreserved, Bool.or_eq_true] at h
  rcases h with h | h
  · simp only [Char.isAlphanum, Char.isAlpha, Char.isUpper, Char.isLower, Char.isDigit,
      Bool.or_eq_true, Bool.and_eq_true, decide_eq_true_eq, ge_iff_le,
      UInt32.le_iff_toNat_le] at h
    change ((65 ≤ c.toNat ∧ c.toNat ≤ 90) ∨ 97 ≤ c.toNat ∧ c.toNat ≤ 122) ∨
      48 ≤ c.toNat ∧ c.toNat ≤ 57 at h
    omega
  · exact hmarks c (contains_iff_mem.mp h)

theorem unreserved_plain (h : isUnreserved c = true) : isPlain c = true := by
  have hall : ∀ n < 127, isUnreserved (Char.ofNat n) = true → isPlain (Char.ofNat n) = true := by
    decide
  exact ascii_induction (p := fun c => isUnreserved c = true → isPlain c = true)
    (unreserved_ascii h) hall h

theorem percentByte_plain (byte : UInt8) : ∀ c ∈ percentByte byte, isPlain c = true := by
  have hall : ∀ n < 16, isPlain n.digitChar.toUpper = true := by decide
  have hlt : byte.toNat < 256 := byte.toNat_lt
  intro c hc
  simp only [percentByte, mem_cons, not_mem_nil, or_false] at hc
  rcases hc with rfl | rfl | rfl
  · decide
  · exact hall _ (by omega)
  · exact hall _ (by omega)

theorem encoded_plain (text : String) : ∀ c ∈ Js.encodeURIComponent text, isPlain c = true := by
  intro c hc
  rw [encodeURIComponent_eq, mem_flatMap] at hc
  obtain ⟨d, -, hc⟩ := hc
  unfold encodedChar at hc
  split at hc
  · next h =>
    rw [mem_singleton.mp hc]
    exact unreserved_plain h
  · obtain ⟨byte, -, hc⟩ := mem_flatMap.mp hc
    exact percentByte_plain byte c hc

theorem percentEncode_plain {text : List Char} (h : ∀ c ∈ text, isPlain c = true) :
    percentEncode pathSet text = text := by
  induction text with
  | nil => rfl
  | cons c text ih =>
    have hc : pathSet c = false := by
      have hplain := h c mem_cons_self
      simp only [isPlain, Bool.and_eq_true, Bool.not_eq_true'] at hplain
      exact hplain.2
    have hrest := ih fun d hd => h d (mem_cons_of_mem _ hd)
    unfold percentEncode at hrest ⊢
    rw [flatMap_cons, hc, if_neg Bool.false_ne_true, hrest, singleton_append]

/-! ## Dots -/

theorem undot_cons {t : List Char}
    (h : c = '%' → ∀ e rest, t = '2' :: e :: rest → e ≠ 'e' ∧ e ≠ 'E') :
    undot (c :: t) = c :: undot t := by
  conv_lhs => unfold undot
  split
  · next e rest heq =>
    obtain ⟨hc, ht⟩ := List.cons.inj heq
    obtain ⟨he, hE⟩ := h hc e rest ht
    rw [if_neg (not_or.mpr ⟨he, hE⟩), hc, ht]
  · next d rest _ heq =>
    obtain ⟨hc, ht⟩ := List.cons.inj heq
    rw [hc, ht]
  · next heq => cases heq

theorem undot_percentByte {byte : UInt8} (hbyte : byte.toNat ≠ 0x2e) (t : List Char) :
    undot (percentByte byte ++ t) = percentByte byte ++ undot t := by
  have hall : ∀ n < 256, n ≠ 0x2e → (n / 16).digitChar.toUpper ≠ '%' ∧
      (n % 16).digitChar.toUpper ≠ '%' ∧ ((n / 16).digitChar.toUpper = '2' →
        (n % 16).digitChar.toUpper ≠ 'e' ∧ (n % 16).digitChar.toUpper ≠ 'E') := by
    decide +kernel
  obtain ⟨hhigh, hlow, hdot⟩ := hall byte.toNat byte.toNat_lt hbyte
  unfold percentByte
  simp only [cons_append, nil_append]
  rw [undot_cons, undot_cons fun hc => absurd hc hhigh, undot_cons fun hc => absurd hc hlow]
  intro _ e rest heq
  obtain ⟨htwo, hrest⟩ := List.cons.inj heq
  rw [← (List.cons.inj hrest).1]
  exact hdot htwo

theorem utf8_byte_ne_dot (h : c ≠ '.') : ∀ byte ∈ String.utf8EncodeChar c, byte.toNat ≠ 0x2e := by
  intro byte hbyte hdot
  obtain rfl : byte = 0x2e := UInt8.toNat_inj.mp hdot
  cases hc : String.utf8EncodeChar c with
  | nil => exact String.utf8EncodeChar_ne_nil hc
  | cons first tail =>
    rcases mem_cons.mp (hc ▸ hbyte) with rfl | htail
    · -- the character begins with a whole one
      have hread := Utf8.utf8DecodeChar?_eq_some_iff.mpr
        (show String.utf8EncodeChar '.' <+: String.utf8EncodeChar c from ⟨tail, hc.symm⟩)
      rw [Utf8.utf8DecodeChar?_eq_some_iff.mpr prefix_rfl] at hread
      exact h (Option.some.inj hread)
    · exact Utf8.not_first_of_mem_tail (c := c) (by rwa [hc]) (by decide)

theorem undot_encoded (text : String) :
    undot (Js.encodeURIComponent text) = Js.encodeURIComponent text := by
  rw [encodeURIComponent_eq]
  induction text.toList with
  | nil => rfl
  | cons c chars ih =>
    rw [flatMap_cons]
    suffices hchar : ∀ t, undot (encodedChar c ++ t) = encodedChar c ++ undot t by
      rw [hchar, ih]
    intro t
    unfold encodedChar
    split
    · next h =>
      refine undot_cons fun hc => ?_
      rw [hc] at h
      exact absurd h (by decide)
    · next h =>
      have hdot : c ≠ '.' := by
        rintro rfl
        exact h (by decide)
      have hbytes := utf8_byte_ne_dot hdot
      generalize String.utf8EncodeChar c = bytes at hbytes
      induction bytes with
      | nil => rfl
      | cons byte bytes ihbytes =>
        rw [flatMap_cons, append_assoc, undot_percentByte (hbytes byte mem_cons_self),
          ihbytes fun b hb => hbytes b (mem_cons_of_mem _ hb), append_assoc]

theorem encodedChar_ne_nil (c : Char) : encodedChar c ≠ [] := by
  unfold encodedChar
  split
  · exact cons_ne_nil _ _
  · cases hbytes : String.utf8EncodeChar c with
    | nil => exact absurd hbytes String.utf8EncodeChar_ne_nil
    | cons byte bytes => simp [percentByte]

theorem encodedChar_dot {t : List Char} (h : (encodedChar c ++ t).head? = some '.') :
    c = '.' ∧ encodedChar c = ['.'] := by
  unfold encodedChar at h ⊢
  split at h
  · next hc =>
    obtain rfl : c = '.' := Option.some.inj h
    exact ⟨rfl, if_pos hc⟩
  · cases hbytes : String.utf8EncodeChar c with
    | nil => exact absurd hbytes String.utf8EncodeChar_ne_nil
    | cons byte bytes =>
      rw [hbytes] at h
      exact absurd (Option.some.inj h) (by decide)

theorem encoded_dots {chars : List Char} {n : Nat}
    (h : chars.flatMap encodedChar = List.replicate n '.') : chars = List.replicate n '.' := by
  induction chars generalizing n with
  | nil =>
    have hlength := congrArg List.length h
    simp only [flatMap_nil, length_nil, length_replicate] at hlength
    rw [← hlength]
    rfl
  | cons c chars ih =>
    cases n with
    | zero =>
      rw [flatMap_cons] at h
      exact absurd (append_eq_nil_iff.mp h).1 (encodedChar_ne_nil c)
    | succ n =>
      rw [flatMap_cons] at h
      have hhead := congrArg List.head? h
      obtain ⟨hc, hencoded⟩ := encodedChar_dot hhead
      rw [hencoded, replicate_succ] at h
      rw [hc, replicate_succ, ih (List.cons.inj h).2]

theorem encoded_eq_dots_iff (text : String) (n : Nat) :
    undot (Js.encodeURIComponent text) = List.replicate n '.' ↔
      text.toList = List.replicate n '.' := by
  rw [undot_encoded, encodeURIComponent_eq]
  constructor
  · exact encoded_dots
  · intro h
    have hdot : encodedChar '.' = ['.'] := rfl
    rw [h]
    clear h
    induction n with
    | zero => rfl
    | succ n ih => rw [replicate_succ, flatMap_cons, hdot, ih, singleton_append]

theorem isSingleDot_encoded (text : String) :
    isSingleDot (Js.encodeURIComponent text) = true ↔ text = "." := by
  unfold isSingleDot
  rw [decide_eq_true_eq]
  refine (encoded_eq_dots_iff text 1).trans ?_
  show text.toList = ".".toList ↔ _
  exact String.toList_inj

theorem isDoubleDot_encoded (text : String) :
    isDoubleDot (Js.encodeURIComponent text) = true ↔ text = ".." := by
  unfold isDoubleDot
  rw [decide_eq_true_eq]
  refine (encoded_eq_dots_iff text 2).trans ?_
  show text.toList = "..".toList ↔ _
  exact String.toList_inj

end Almyty.Lib.Url
