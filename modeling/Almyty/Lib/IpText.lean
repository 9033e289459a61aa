import Almyty.Lib.JsText

/-!
# How addresses are written

An IPv4 address is written as its four octets. An IPv6 address is eight words: its text has a group
of one to four hexadecimal digits for each, in either case, may have `::` for one or more that are
zero, and an IPv4 address for the last two (RFC 4291).
-/

namespace Almyty.Lib.Ip

open List

/-! ## IPv4 -/

@[ext]
structure Quad where
  a : Fin 256
  b : Fin 256
  c : Fin 256
  d : Fin 256

def decimal (n : Fin 256) : List Char := Nat.toDigits 10 n

def Quad.octets (q : Quad) : List (Fin 256) := [q.a, q.b, q.c, q.d]

def Quad.text (q : Quad) : List Char := ['.'].intercalate (q.octets.map decimal)

/-- The address as a number. -/
def Quad.value (q : Quad) : Nat := ((q.a.val * 256 + q.b) * 256 + q.c) * 256 + q.d

def Quad.words (q : Quad) : List Nat := [q.a.val * 256 + q.b, q.c.val * 256 + q.d]

theorem decimal_chars (n : Fin 256) : ∀ c ∈ decimal n, c.isDigit = true := by
  intro c hc
  exact Nat.isDigit_of_mem_toDigits (by decide) (by decide) hc

theorem decimal_value (n : Fin 256) : Nat.ofDigitChars 10 (decimal n) 0 = n :=
  Nat.ofDigitChars_ten_toDigits

theorem splitOn_quad (q : Quad) : q.text.splitOn '.' = q.octets.map decimal := by
  refine splitOn_intercalate '.' ?_ (by simp [Quad.octets])
  intro part hpart hdot
  obtain ⟨n, -, rfl⟩ := mem_map.mp hpart
  exact absurd (decimal_chars n '.' hdot) (by decide)

theorem decimal_injective {m n : Fin 256} (h : decimal m = decimal n) : m = n := by
  have hm := decimal_value m
  rw [h, decimal_value n] at hm
  exact Fin.ext hm.symm

theorem Quad.text_injective {q r : Quad} (h : q.text = r.text) : q = r := by
  have hsplit := congrArg (List.splitOn '.') h
  rw [splitOn_quad, splitOn_quad] at hsplit
  obtain ⟨ha, hb, hc, hd⟩ : decimal q.a = decimal r.a ∧ decimal q.b = decimal r.b ∧
      decimal q.c = decimal r.c ∧ decimal q.d = decimal r.d := by
    simpa [Quad.octets] using hsplit
  exact Quad.ext (decimal_injective ha) (decimal_injective hb) (decimal_injective hc)
    (decimal_injective hd)

theorem Quad.text_chars (q : Quad) : ∀ c ∈ q.text, c.isDigit = true ∨ c = '.' := by
  intro c hc
  rw [Quad.text, Quad.octets] at hc
  simp only [map_cons, map_nil, intercalate_cons_cons, intercalate_singleton,
    mem_append, mem_singleton] at hc
  rcases hc with (hc | rfl) | (hc | rfl) | (hc | rfl) | hc
  · exact .inl (decimal_chars q.a c hc)
  · exact .inr rfl
  · exact .inl (decimal_chars q.b c hc)
  · exact .inr rfl
  · exact .inl (decimal_chars q.c c hc)
  · exact .inr rfl
  · exact .inl (decimal_chars q.d c hc)

/-! ## Groups -/

def isLowerHex (c : Char) : Bool := c.isDigit || ('a' ≤ c && c ≤ 'f')

def isHex (c : Char) : Bool := isLowerHex c || ('A' ≤ c && c ≤ 'F')

def hexDigitValue (c : Char) : Nat :=
  if c.isDigit then c.toNat - '0'.toNat
  else if 'a' ≤ c && c ≤ 'f' then c.toNat - 87
  else c.toNat - 55

def parseHex (digits : List Char) : Nat := digits.foldl (fun n c => n * 16 + hexDigitValue c) 0

structure HexGroup where
  digits : List Char
  ne_nil : digits ≠ []
  atMost : digits.length ≤ 4
  hex : ∀ c ∈ digits, isHex c = true

def HexGroup.word (g : HexGroup) : Nat := parseHex g.digits

theorem hex_ascii {c : Char} (h : isHex c = true) : c.toNat < 128 := by
  simp only [isHex, isLowerHex, Char.isDigit, Bool.or_eq_true, Bool.and_eq_true, decide_eq_true_eq, ge_iff_le,
    UInt32.le_iff_toNat_le, Char.le_def] at h
  change ((48 ≤ c.toNat ∧ c.toNat ≤ 57) ∨ 97 ≤ c.toNat ∧ c.toNat ≤ 102) ∨
    65 ≤ c.toNat ∧ c.toNat ≤ 70 at h
  omega

theorem of_hex {p : Char → Bool}
    (hall : (List.range 128).all fun n => !isHex (Char.ofNat n) || p (Char.ofNat n))
    {c : Char} (h : isHex c = true) : p c = true := by
  have hc := all_eq_true.mp hall c.toNat (mem_range.mpr (hex_ascii h))
  rw [Char.ofNat_toNat, h] at hc
  simpa using hc

theorem isHex_of_lower {c : Char} (h : isLowerHex c = true) : isHex c = true := by
  rw [isHex, h, Bool.true_or]

theorem hex_lower {c : Char} (h : isHex c = true) :
    isLowerHex c.toLower = true ∧ hexDigitValue c.toLower = hexDigitValue c ∧ hexDigitValue c < 16 ∧
      c ≠ ':' ∧ c ≠ '.' ∧ c ≠ '%' := by
  have hc := of_hex (p := fun c => isLowerHex c.toLower && hexDigitValue c.toLower == hexDigitValue c &&
    decide (hexDigitValue c < 16) && c != ':' && c != '.' && c != '%') (by decide) h
  simpa [and_assoc] using hc

def HexGroup.lower (g : HexGroup) : HexGroup where
  digits := g.digits.map Char.toLower
  ne_nil := by simpa using g.ne_nil
  atMost := by simpa using g.atMost
  hex := by
    intro c hc
    obtain ⟨d, hd, rfl⟩ := mem_map.mp hc
    exact isHex_of_lower (hex_lower (g.hex d hd)).1

theorem HexGroup.word_lower (g : HexGroup) : g.lower.word = g.word := by
  have hfold : ∀ (l : List Char) (n : Nat), (∀ c ∈ l, isHex c = true) →
      (l.map Char.toLower).foldl (fun n c => n * 16 + hexDigitValue c) n =
        l.foldl (fun n c => n * 16 + hexDigitValue c) n := by
    intro l
    induction l with
    | nil => exact fun _ _ => rfl
    | cons c l ih =>
      intro n hl
      rw [map_cons, foldl_cons, foldl_cons, (hex_lower (hl c mem_cons_self)).2.1]
      exact ih _ fun d hd => hl d (mem_cons_of_mem c hd)
  exact hfold g.digits 0 g.hex

theorem parseHex_append (digits : List Char) (c : Char) :
    parseHex (digits ++ [c]) = parseHex digits * 16 + hexDigitValue c := by
  rw [parseHex, foldl_append]
  rfl

theorem parseHex_lt {digits : List Char} (h : ∀ c ∈ digits, isHex c = true) :
    parseHex digits < 16 ^ digits.length := by
  induction digits using List.reverseRecOn with
  | nil => decide
  | append_singleton digits c ih =>
    have hdigit := (hex_lower (h c (by simp))).2.2.1
    have hrest := ih fun d hd => h d (mem_append_left _ hd)
    rw [parseHex_append, length_append, length_singleton, Nat.pow_succ]
    omega

theorem HexGroup.word_lt (g : HexGroup) : g.word < 65536 := by
  have hlt := parseHex_lt g.hex
  have hpow : 16 ^ g.digits.length ≤ 16 ^ 4 := Nat.pow_le_pow_right (by decide) g.atMost
  have h4 : 16 ^ 4 = 65536 := rfl
  rw [HexGroup.word]
  omega

theorem parseHex_toDigits (n : Nat) :
    parseHex (Nat.toDigits 16 n) = n ∧ ∀ c ∈ Nat.toDigits 16 n, isLowerHex c = true := by
  have hdigit : ∀ d < 16, hexDigitValue d.digitChar = d ∧ isLowerHex d.digitChar = true := by decide
  induction n using Nat.strong_induction_on with
  | _ n ih =>
    by_cases hlt : n < 16
    · rw [Nat.toDigits_of_lt_base hlt]
      have hn := hdigit n hlt
      refine ⟨?_, fun c hc => by rw [mem_singleton.mp hc]; exact hn.2⟩
      show 0 * 16 + hexDigitValue n.digitChar = n
      rw [hn.1]
      omega
    · have hlast := hdigit (n % 16) (Nat.mod_lt n (by decide))
      obtain ⟨hvalue, hhex⟩ := ih (n / 16) (by omega)
      rw [Nat.toDigits_of_base_le (by decide) (by omega), parseHex_append, hvalue, hlast.1]
      refine ⟨by omega, fun c hc => ?_⟩
      rcases mem_append.mp hc with hc | hc
      · exact hhex c hc
      · rw [mem_singleton.mp hc]
        exact hlast.2

def HexGroup.ofWord (n : Nat) (h : n < 65536) : HexGroup where
  digits := Nat.toDigits 16 n
  ne_nil := Nat.toDigits_ne_nil
  atMost := (Nat.length_toDigits_le_iff (by decide) (by decide)).mpr h
  hex := fun c hc => isHex_of_lower ((parseHex_toDigits n).2 c hc)

theorem HexGroup.word_ofWord (n : Nat) (h : n < 65536) : (HexGroup.ofWord n h).word = n :=
  (parseHex_toDigits n).1

/-! ## IPv6 -/

def colons (parts : List (List Char)) : List Char := [':'].intercalate parts

def Quad.groups (q : Quad) : List HexGroup :=
  [.ofWord (q.a.val * 256 + q.b) (by omega), .ofWord (q.c.val * 256 + q.d) (by omega)]

/-- How many words are written before and behind `::`, if it is there. -/
def Fits (head : Nat) (rest : Option Nat) (tail : Option Quad) : Prop :=
  match rest with
  | none => head + 2 * tail.toList.length = 8
  | some rest => head + rest + 2 * tail.toList.length ≤ 7

instance (head : Nat) (tail : Option Quad) : ∀ rest, Decidable (Fits head rest tail)
  | none => inferInstanceAs (Decidable (_ = _))
  | some _ => inferInstanceAs (Decidable (_ ≤ _))

structure Ipv6Text where
  head : List HexGroup
  /-- What follows `::`. -/
  rest : Option (List HexGroup)
  tail : Option Quad
  fits : Fits head.length (rest.map List.length) tail

namespace Ipv6Text

def digits (groups : List HexGroup) : List (List Char) := groups.map (·.digits)

def tailText (tail : Option Quad) : List (List Char) := (tail.map Quad.text).toList

def tailWords (tail : Option Quad) : List Nat := (tail.map Quad.words).getD []

def text (t : Ipv6Text) : List Char :=
  match t.rest with
  | none => colons (digits t.head ++ tailText t.tail)
  | some rest => colons (digits t.head) ++ ':' :: ':' :: colons (digits rest ++ tailText t.tail)

def words (t : Ipv6Text) : List Nat :=
  match t.rest with
  | none => t.head.map HexGroup.word ++ tailWords t.tail
  | some rest =>
    t.head.map HexGroup.word ++
      List.replicate (8 - t.head.length - rest.length - (tailWords t.tail).length) 0 ++
      (rest.map HexGroup.word ++ tailWords t.tail)

def lower (t : Ipv6Text) : Ipv6Text where
  head := t.head.map HexGroup.lower
  rest := t.rest.map (·.map HexGroup.lower)
  tail := t.tail
  fits := by
    have h := t.fits
    cases hrest : t.rest <;> simpa [Fits, hrest] using h

def tailGroups (tail : Option Quad) : List HexGroup := (tail.map Quad.groups).getD []

/-- The IPv4 tail as two groups. -/
def untail (t : Ipv6Text) : Ipv6Text :=
  match hrest : t.rest with
  | none => ⟨t.head ++ tailGroups t.tail, none, none, by
      have h := t.fits
      cases htail : t.tail <;> simpa [Fits, hrest, htail, tailGroups, Quad.groups] using h⟩
  | some rest => ⟨t.head, some (rest ++ tailGroups t.tail), none, by
      have h := t.fits
      cases htail : t.tail <;> simpa [Fits, hrest, htail, tailGroups, Quad.groups, Nat.add_assoc]
        using h⟩

theorem word_tailGroups (tail : Option Quad) :
    (tailGroups tail).map HexGroup.word = tailWords tail := by
  cases tail with
  | none => rfl
  | some q =>
    show [HexGroup.word _, HexGroup.word _] = q.words
    rw [HexGroup.word_ofWord, HexGroup.word_ofWord]
    rfl

theorem length_tailGroups (tail : Option Quad) :
    (tailGroups tail).length = (tailWords tail).length := by
  rw [← word_tailGroups, length_map]

theorem words_untail (t : Ipv6Text) : t.untail.words = t.words := by
  obtain ⟨head, rest, tail, fits⟩ := t
  cases rest with
  | none =>
    show (head ++ tailGroups tail).map HexGroup.word ++ [] = _
    rw [map_append, word_tailGroups, append_nil]
    rfl
  | some rest =>
    show head.map HexGroup.word ++ List.replicate
      (8 - head.length - (rest ++ tailGroups tail).length - 0) 0 ++
        ((rest ++ tailGroups tail).map HexGroup.word ++ []) = _
    rw [map_append, word_tailGroups, append_nil, length_append, length_tailGroups,
      Nat.sub_zero, ← Nat.sub_sub]
    rfl

theorem words_lower (t : Ipv6Text) : t.lower.words = t.words := by
  have hmap (groups : List HexGroup) :
      (groups.map HexGroup.lower).map HexGroup.word = groups.map HexGroup.word := by
    rw [map_map]
    exact map_congr_left fun g _ => g.word_lower
  obtain ⟨head, rest, tail, fits⟩ := t
  cases rest with
  | none =>
    show (head.map HexGroup.lower).map HexGroup.word ++ tailWords tail = _
    rw [hmap]
    rfl
  | some rest =>
    show (head.map HexGroup.lower).map HexGroup.word ++ List.replicate
      (8 - (head.map HexGroup.lower).length - (rest.map HexGroup.lower).length -
        (tailWords tail).length) 0 ++ ((rest.map HexGroup.lower).map HexGroup.word ++ _) = _
    rw [hmap, hmap, length_map, length_map]
    rfl

theorem length_words (t : Ipv6Text) : t.words.length = 8 := by
  have h := t.fits
  rw [← words_untail]
  obtain ⟨head, rest, tail, fits⟩ := t
  cases rest with
  | none =>
    have htail : (tailGroups tail).length = 2 * tail.toList.length := by cases tail <;> rfl
    have hfits : head.length + 2 * tail.toList.length = 8 := fits
    show ((head ++ tailGroups tail).map HexGroup.word ++ []).length = 8
    rw [append_nil, length_map, length_append, htail, hfits]
  | some rest =>
    have htail : (tailGroups tail).length = 2 * tail.toList.length := by cases tail <;> rfl
    have hfits : head.length + rest.length + 2 * tail.toList.length ≤ 7 := fits
    show (head.map HexGroup.word ++ List.replicate
      (8 - head.length - (rest ++ tailGroups tail).length - 0) 0 ++
        ((rest ++ tailGroups tail).map HexGroup.word ++ [])).length = 8
    simp only [length_append, length_map, length_replicate, htail, length_nil]
    omega

theorem words_lt (t : Ipv6Text) : ∀ w ∈ t.words, w < 65536 := by
  have hgroups (groups : List HexGroup) : ∀ w ∈ groups.map HexGroup.word, w < 65536 := by
    intro w hw
    obtain ⟨g, -, rfl⟩ := mem_map.mp hw
    exact g.word_lt
  have htail (tail : Option Quad) : ∀ w ∈ tailWords tail, w < 65536 := by
    rw [← word_tailGroups]
    exact hgroups _
  intro w hw
  obtain ⟨head, rest, tail, fits⟩ := t
  cases rest with
  | none =>
    rcases mem_append.mp hw with hw | hw
    · exact hgroups head w hw
    · exact htail tail w hw
  | some rest =>
    rcases mem_append.mp hw with hw | hw
    · rcases mem_append.mp hw with hw | hw
      · exact hgroups head w hw
      · rw [(mem_replicate.mp hw).2]
        decide
    · rcases mem_append.mp hw with hw | hw
      · exact hgroups rest w hw
      · exact htail tail w hw

end Ipv6Text

/-! ## Texts with colons -/

section Colons

theorem colons_cons_cons (part next : List Char) (parts : List (List Char)) :
    colons (part :: next :: parts) = part ++ ':' :: colons (next :: parts) := by
  rw [colons, intercalate_cons_cons, append_assoc]
  rfl

theorem colons_singleton (part : List Char) : colons [part] = part :=
  intercalate_singleton

theorem colons_append_singleton {parts : List (List Char)} (hne : parts ≠ []) (part : List Char) :
    colons (parts ++ [part]) = colons parts ++ ':' :: part := by
  induction parts with
  | nil => exact absurd rfl hne
  | cons first parts ih =>
    cases parts with
    | nil =>
      rw [singleton_append, colons_cons_cons, colons_singleton, colons_singleton]
    | cons next parts =>
      rw [cons_append, cons_append, colons_cons_cons, ← cons_append,
        ih (cons_ne_nil _ _), colons_cons_cons, append_assoc]
      rfl

theorem colons_map (f : Char → Char) (hcolon : f ':' = ':') (parts : List (List Char)) :
    (colons parts).map f = colons (parts.map (·.map f)) := by
  induction parts with
  | nil => rfl
  | cons first parts ih =>
    cases parts with
    | nil => rw [map_singleton, colons_singleton, colons_singleton]
    | cons next parts =>
      rw [colons_cons_cons, map_append, map_cons, hcolon, ih]
      exact (colons_cons_cons _ _ _).symm

theorem mem_colons {parts : List (List Char)} {c : Char} (h : c ∈ colons parts) :
    c = ':' ∨ ∃ part ∈ parts, c ∈ part := by
  induction parts with
  | nil => cases h
  | cons first parts ih =>
    cases parts with
    | nil =>
      rw [colons_singleton] at h
      exact .inr ⟨first, mem_cons_self, h⟩
    | cons next parts =>
      rw [colons_cons_cons, mem_append, mem_cons] at h
      rcases h with h | rfl | h
      · exact .inr ⟨first, mem_cons_self, h⟩
      · exact .inl rfl
      · exact (ih h).imp_right fun ⟨part, hpart, hc⟩ => ⟨part, mem_cons_of_mem _ hpart, hc⟩

end Colons

namespace Ipv6Text

theorem toLower_quad (q : Quad) : q.text.map Char.toLower = q.text := by
  conv_rhs => rw [← map_id q.text]
  refine map_congr_left fun c hc => ?_
  have hall : ∀ n < 128, (Char.ofNat n).isDigit = true → (Char.ofNat n).toLower = Char.ofNat n := by
    decide
  rcases q.text_chars c hc with h | rfl
  · have hlt : c.toNat < 128 := by
      simp only [Char.isDigit, Bool.and_eq_true, decide_eq_true_eq, ge_iff_le,
        UInt32.le_iff_toNat_le] at h
      change 48 ≤ c.toNat ∧ c.toNat ≤ 57 at h
      omega
    have hc := hall c.toNat hlt
    rw [Char.ofNat_toNat] at hc
    exact hc h
  · decide

theorem map_digits_lower (groups : List HexGroup) :
    (digits groups).map (·.map Char.toLower) = digits (groups.map HexGroup.lower) := by
  rw [digits, digits, map_map, map_map]
  rfl

theorem map_tailText_lower (tail : Option Quad) :
    (tailText tail).map (·.map Char.toLower) = tailText tail := by
  cases tail with
  | none => rfl
  | some q => exact congrArg (fun text => [text]) (toLower_quad q)

theorem text_lower (t : Ipv6Text) : t.text.map Char.toLower = t.lower.text := by
  obtain ⟨head, rest, tail, fits⟩ := t
  cases rest with
  | none =>
    show (colons (digits head ++ tailText tail)).map Char.toLower = _
    rw [colons_map _ (by decide), map_append, map_digits_lower, map_tailText_lower]
    rfl
  | some rest =>
    show (colons (digits head) ++ ':' :: ':' :: colons (digits rest ++ tailText tail)).map
      Char.toLower = _
    rw [map_append, map_cons, map_cons, colons_map _ (by decide),
      colons_map _ (by decide), map_append, map_digits_lower, map_digits_lower,
      map_tailText_lower]
    rfl

theorem text_tail {t : Ipv6Text} {q : Quad} (htail : t.tail = some q) :
    ∃ front, t.text = front ++ ':' :: q.text ∧
      t.untail.text = front ++ ':' :: (Nat.toDigits 16 (q.a.val * 256 + q.b) ++
        ':' :: Nat.toDigits 16 (q.c.val * 256 + q.d)) := by
  have hgroups (groups : List HexGroup) : digits (groups ++ q.groups) =
      digits groups ++ [Nat.toDigits 16 (q.a.val * 256 + q.b)] ++
        [Nat.toDigits 16 (q.c.val * 256 + q.d)] := by
    rw [digits, map_append, append_assoc]
    rfl
  obtain ⟨head, rest, tail, fits⟩ := t
  obtain rfl : tail = some q := htail
  cases rest with
  | none =>
    have hfits : head.length + 2 = 8 := fits
    have hne : digits head ≠ [] := by
      intro hnil
      rw [map_eq_nil_iff.mp hnil] at hfits
      cases hfits
    refine ⟨colons (digits head), colons_append_singleton hne q.text, ?_⟩
    show colons (digits (head ++ q.groups) ++ []) = _
    rw [append_nil, hgroups, colons_append_singleton (by simp),
      colons_append_singleton hne, append_assoc]
    rfl
  | some rest =>
    by_cases hne : digits rest = []
    · refine ⟨colons (digits head) ++ [':'], ?_, ?_⟩
      · show colons (digits head) ++ ':' :: ':' :: colons (digits rest ++ [q.text]) = _
        rw [hne, nil_append, colons_singleton, append_assoc]
        rfl
      · show colons (digits head) ++ ':' :: ':' :: colons (digits (rest ++ q.groups) ++ []) = _
        rw [append_nil, hgroups, hne, nil_append,
          colons_append_singleton (cons_ne_nil _ _), append_assoc]
        rw [colons_singleton]
        rfl
    · refine ⟨colons (digits head) ++ ':' :: ':' :: colons (digits rest), ?_, ?_⟩
      · show colons (digits head) ++ ':' :: ':' :: colons (digits rest ++ [q.text]) = _
        rw [colons_append_singleton hne, append_assoc]
        rfl
      · show colons (digits head) ++ ':' :: ':' :: colons (digits (rest ++ q.groups) ++ []) = _
        rw [append_nil, hgroups, colons_append_singleton (by simp),
          colons_append_singleton hne, append_assoc, append_assoc]
        rfl

theorem text_chars {t : Ipv6Text} (htail : t.tail = none) :
    ∀ c ∈ t.text, isHex c = true ∨ c = ':' := by
  have hdigits (groups : List HexGroup) : ∀ c ∈ colons (digits groups), isHex c = true ∨ c = ':' := by
    intro c hc
    rcases mem_colons hc with rfl | ⟨part, hpart, hc⟩
    · exact .inr rfl
    · obtain ⟨g, -, rfl⟩ := mem_map.mp hpart
      exact .inl (g.hex c hc)
  obtain ⟨head, rest, tail, fits⟩ := t
  obtain rfl : tail = none := htail
  cases rest with
  | none =>
    intro c hc
    refine hdigits head c ?_
    rwa [text, show tailText none = [] from rfl, append_nil] at hc
  | some rest =>
    intro c hc
    rw [text, show tailText none = [] from rfl] at hc
    dsimp only at hc
    rw [append_nil, mem_append, mem_cons, mem_cons] at hc
    rcases hc with hc | rfl | rfl | hc
    · exact hdigits head c hc
    · exact .inr rfl
    · exact .inr rfl
    · exact hdigits rest c hc

end Ipv6Text

end Almyty.Lib.Ip
