import Almyty.Memory.DocumentChunks

/-!
# What a document's chunks keep, and how long they get

The chunks hold all of the document but white space (`strip_packParagraphs`). Their sizes are counted
before the overlap is put in front, and a sentence that is cut anywhere is cut by code units, not
bytes: a chunk is held to the cap, and has its characters whole, when there is room for an overlap
and only ASCII is cut (`chunks_within_cap`).
-/

namespace Almyty.Memory.Documents

open Almyty.Lib List Option

def strip (text : Text) : Text := text.filter (!isSpace ·)

def IsSurrogate (unit : Nat) : Prop := 0xd800 ≤ unit ∧ unit < 0xe000

instance (unit : Nat) : Decidable (IsSurrogate unit) := inferInstanceAs (Decidable (_ ∧ _))

/-- No half of a surrogate pair is without the other. -/
def wholeCharacters : Text → Bool
  | [] => true
  | [unit] => !decide (IsSurrogate unit)
  | high :: low :: rest =>
    if (0xd800 ≤ high ∧ high < 0xdc00) ∧ (0xdc00 ≤ low ∧ low < 0xe000) then wholeCharacters rest
    else !decide (IsSurrogate high) && wholeCharacters (low :: rest)

def overlapped : List Text → List Text
  | [] => []
  | first :: rest => first :: withOverlap first rest

/-! ## Nothing is lost -/

theorem strip_append (a b : Text) : strip (a ++ b) = strip a ++ strip b := filter_append a b

theorem strip_cons_space {unit : Nat} (h : isSpace unit = true) (text : Text) :
    strip (unit :: text) = strip text :=
  filter_cons_of_neg (by simp [h])

theorem strip_reverse (text : Text) : strip text.reverse = (strip text).reverse :=
  filter_reverse

theorem strip_dropWhile (text : Text) : strip (text.dropWhile isSpace) = strip text := by
  induction text with
  | nil => rfl
  | cons unit text ih =>
    cases h : isSpace unit with
    | true => rw [dropWhile_cons_of_pos h, ih, strip_cons_space h]
    | false => rw [dropWhile_cons_of_neg (by simp [h])]

theorem strip_trim (text : Text) : strip (trim text) = strip text := by
  rw [trim, strip_reverse, strip_dropWhile, strip_reverse, strip_dropWhile, reverse_reverse]

theorem blankLines_spaces {rest : Text} {left : Nat} (h : blankLines rest = some left) :
    ∀ unit ∈ rest.take left, isSpace unit = true := by
  unfold blankLines at h
  dsimp only at h
  split at h
  · have hleft : left ≤ (rest.takeWhile isSpace).length :=
      some.inj h ▸ Nat.sub_le _ _
    obtain ⟨more, hmore⟩ := takeWhile_prefix isSpace (l := rest)
    intro unit hunit
    have hin : unit ∈ (rest.takeWhile isSpace ++ more).take left := by rwa [hmore]
    rw [take_append_of_le_length hleft] at hin
    exact mem_takeWhile_imp (mem_of_mem_take hin)
  · cases h

theorem strip_splitBlankLines (piece : Text) (left : Nat) (rest : Text)
    (h : ∀ unit ∈ rest.take left, isSpace unit = true) :
    strip (splitBlankLines piece left rest).flatten = strip piece.reverse ++ strip rest := by
  induction rest generalizing piece left with
  | nil =>
    unfold splitBlankLines
    simp [strip]
  | cons unit rest ih =>
    cases left with
    | succ left =>
      rw [splitBlankLines, ih piece left fun u hu => h u (mem_cons_of_mem _ hu),
        strip_cons_space (h unit mem_cons_self)]
    | zero =>
      rw [splitBlankLines]
      split
      next left hleft =>
        have hten : unit = 10 := by
          by_contra hne
          rw [if_neg hne] at hleft
          cases hleft
        rw [if_pos hten] at hleft
        rw [flatten_cons, strip_append, ih [] left (blankLines_spaces hleft), hten,
          strip_cons_space (by decide)]
        rfl
      · rw [ih (unit :: piece) 0 (by simp), reverse_cons, strip_append, append_assoc,
          ← strip_append]
        rfl

theorem strip_flatten_map_trim (pieces : List Text) :
    strip ((pieces.map trim).filter (· ≠ [])).flatten = strip pieces.flatten := by
  induction pieces with
  | nil => rfl
  | cons piece pieces ih =>
    rw [map_cons, flatten_cons, strip_append, ← ih, ← strip_trim piece]
    by_cases h : trim piece = []
    · rw [filter_cons_of_neg (by simp [h]), h]
      rfl
    · rw [filter_cons_of_pos (by simp [h]), flatten_cons, strip_append]

theorem strip_paragraphsOf (content : Text) :
    strip (paragraphsOf content).flatten = strip content := by
  rw [paragraphsOf, strip_flatten_map_trim, strip_splitBlankLines [] 0 content (by simp)]
  rfl

theorem strip_splitSentences {piece : Text} {separator : Bool} (h : separator = true → piece = [])
    (rest : Text) :
    strip (splitSentences piece separator rest).flatten = strip piece.reverse ++ strip rest := by
  induction rest generalizing piece separator with
  | nil =>
    unfold splitSentences
    simp [strip]
  | cons unit rest ih =>
    rw [splitSentences]
    split
    next hmore =>
      obtain ⟨hsep, hspace⟩ := Bool.and_eq_true_iff.mp hmore
      rw [ih fun _ => rfl, h hsep, strip_cons_space hspace]
    · split
      next hend =>
        rw [flatten_cons, strip_append, ih fun _ => rfl,
          strip_cons_space (Bool.and_eq_true_iff.mp hend).1]
        rfl
      · rw [ih fun hsep => (by cases hsep), reverse_cons, strip_append, append_assoc,
          ← strip_append]
        rfl

theorem flatten_slices {size : Nat} (hsize : 0 < size) {pieces : Nat} {text : Text}
    (h : text.length ≤ pieces) : (slices size pieces text).flatten = text := by
  induction pieces generalizing text with
  | zero => rw [length_eq_zero_iff.mp (Nat.le_zero.mp h)]; rfl
  | succ pieces ih =>
    rw [slices]
    split
    next hnil => exact hnil.symm
    next hnil =>
      have hpos := length_pos_iff.mpr hnil
      rw [flatten_cons, ih (by rw [length_drop]; omega), take_append_drop]

theorem flatten_flush (chunks : List Text) (buf : Text) :
    (flush chunks buf).flatten = chunks.flatten ++ buf := by
  unfold flush
  split
  · simp
  next h => simp [not_not.mp h]

variable {buf : Text}

theorem strip_splitOversized {maxBytes : Nat} {out : List Text} {sentences parts : List Text}
    (h : splitOversized maxBytes out buf sentences = some parts) :
    strip parts.flatten = strip out.flatten ++ strip buf ++ strip sentences.flatten := by
  induction sentences generalizing out buf with
  | nil =>
    obtain rfl := some.inj h
    rw [flatten_flush, strip_append]
    simp [strip]
  | cons sentence rest ih =>
    rw [splitOversized] at h
    rw [flatten_cons, strip_append]
    split at h
    · split at h
      · obtain ⟨pieces, hpieces, h⟩ := bind_eq_some_iff.mp h
        unfold hardSplit at hpieces
        split at hpieces
        · cases hpieces
        next hsize =>
          obtain rfl := some.inj hpieces
          rw [ih h, flatten_append, flatten_flush, flatten_slices (by omega) le_rfl]
          simp [strip]
      · rw [ih h, flatten_flush]
        simp [strip]
    · rw [ih h]
      split
      · have hspace : isSpace 32 = true := by decide
        rw [strip_append, strip_cons_space hspace]
        simp
      next hbuf =>
        rw [not_not.mp hbuf]
        simp [strip]

theorem strip_packParagraphs {targetBytes : Nat} {chunks : List Text}
    {paragraphs packed : List Text}
    (h : packParagraphs targetBytes chunks buf paragraphs = some packed) :
    strip packed.flatten = strip chunks.flatten ++ strip buf ++ strip paragraphs.flatten := by
  induction paragraphs generalizing chunks buf with
  | nil =>
    obtain rfl := some.inj h
    rw [flatten_flush, strip_append]
    simp [strip]
  | cons para rest ih =>
    rw [packParagraphs] at h
    rw [flatten_cons, strip_append]
    split at h
    · obtain ⟨parts, hparts, h⟩ := bind_eq_some_iff.mp h
      have hkept := strip_splitOversized hparts
      rw [strip_splitSentences fun hsep => (by cases hsep)] at hkept
      rw [ih h, flatten_append, flatten_flush, strip_append, strip_append, hkept]
      simp [strip]
    · split at h
      · rw [ih h, flatten_flush]
        simp [strip]
      · rw [ih h]
        split
        · have hspace : isSpace 10 = true := by decide
          rw [strip_append, strip_cons_space hspace, strip_cons_space hspace]
          simp
        next hbuf =>
          rw [not_not.mp hbuf]
          simp [strip]

/-! ## Sizes -/

theorem byteLength_cons_le (unit : Nat) (text : Text) :
    byteLength (unit :: text) ≤ unitBytes unit + byteLength text := by
  cases text with
  | nil => exact Nat.le_refl _
  | cons low rest =>
    rw [byteLength]
    split
    next hpair =>
      have hhigh : unitBytes unit = 3 := by unfold unitBytes; split_ifs <;> omega
      have hlow : unitBytes low = 3 := by unfold unitBytes; split_ifs <;> omega
      have hrest : byteLength (low :: rest) = 3 + byteLength rest := by
        cases rest with
        | nil => exact hlow
        | cons => rw [byteLength, if_neg (by omega), hlow]
      omega
    · exact Nat.le_refl _

theorem byteLength_append_le (a b : Text) : byteLength (a ++ b) ≤ byteLength a + byteLength b := by
  induction a using byteLength.induct with
  | case1 => exact (Nat.zero_add _).ge
  | case2 unit => exact byteLength_cons_le unit b
  | case3 high low rest hpair ih =>
    rw [cons_append, cons_append, byteLength, if_pos hpair, byteLength, if_pos hpair]
    omega
  | case4 high low rest hpair ih =>
    rw [cons_append] at ih
    rw [cons_append, cons_append, byteLength, if_neg hpair, byteLength, if_neg hpair]
    omega

theorem byteLength_le_of_units {n : Nat} {text : Text} (h : ∀ unit ∈ text, unitBytes unit ≤ n) :
    byteLength text ≤ n * text.length := by
  induction text with
  | nil => exact Nat.le_refl _
  | cons unit text ih =>
    obtain ⟨hunit, htext⟩ := forall_mem_cons.mp h
    have hle := byteLength_cons_le unit text
    have hmore := ih htext
    rw [length_cons, Nat.mul_succ]
    omega

theorem byteLength_le (text : Text) : byteLength text ≤ 3 * text.length :=
  byteLength_le_of_units fun unit _ => by unfold unitBytes; split_ifs <;> omega

variable {maxBytes : Nat}

theorem slices_le {sentence : Text} (hascii : ∀ unit ∈ sentence, unit < 0x80) {pieces : Nat} :
    ∀ piece ∈ slices maxBytes pieces sentence, byteLength piece ≤ maxBytes := by
  induction pieces generalizing sentence with
  | zero => simp [slices]
  | succ pieces ih =>
    intro piece hpiece
    rw [slices] at hpiece
    split at hpiece
    · cases hpiece
    · rcases mem_cons.mp hpiece with rfl | hpiece
      · refine (byteLength_le_of_units (n := 1) fun unit hunit => ?_).trans ?_
        · rw [unitBytes, if_pos (hascii unit (mem_of_mem_take hunit))]
        · rw [Nat.one_mul]
          exact length_take_le _ _
      · exact ih (fun unit hunit => hascii unit (mem_of_mem_drop hunit)) piece hpiece

theorem flush_le {chunks : List Text} (hchunks : ∀ c ∈ chunks, byteLength c ≤ maxBytes)
    (hbuf : byteLength buf ≤ maxBytes) : ∀ c ∈ flush chunks buf, byteLength c ≤ maxBytes := by
  unfold flush
  split
  · intro c hc
    rcases mem_append.mp hc with hc | hc
    · exact hchunks c hc
    · rwa [mem_singleton.mp hc]
  · exact hchunks

/-- What is longer than the budget is ASCII. -/
def OnlyAsciiCut (maxBytes : Nat) (sentences : List Text) : Prop :=
  ∀ s ∈ sentences, maxBytes < byteLength s → ∀ unit ∈ s, unit < 0x80

theorem splitOversized_le {out : List Text} {sentences parts : List Text}
    (hcut : OnlyAsciiCut maxBytes sentences) (hout : ∀ c ∈ out, byteLength c ≤ maxBytes)
    (hbuf : byteLength buf ≤ maxBytes) (h : splitOversized maxBytes out buf sentences = some parts) :
    ∀ part ∈ parts, byteLength part ≤ maxBytes := by
  induction sentences generalizing out buf with
  | nil =>
    obtain rfl := some.inj h
    exact flush_le hout hbuf
  | cons sentence rest ih =>
    obtain ⟨hthis, hrest⟩ := forall_mem_cons.mp hcut
    rw [splitOversized] at h
    split at h
    · split at h
      next hlong =>
        obtain ⟨pieces, hpieces, h⟩ := bind_eq_some_iff.mp h
        unfold hardSplit at hpieces
        split at hpieces
        · cases hpieces
        · obtain rfl := some.inj hpieces
          refine ih hrest (fun c hc => ?_) (Nat.zero_le _) h
          rcases mem_append.mp hc with hc | hc
          · exact flush_le hout hbuf c hc
          · exact slices_le (hthis hlong) c hc
      next hfits => exact ih hrest (flush_le hout hbuf) (Nat.le_of_not_lt hfits) h
    next hfits =>
      refine ih hrest hout ?_ h
      split
      · have happend := byteLength_append_le buf (32 :: sentence)
        have hcons := byteLength_cons_le 32 sentence
        have hspace : unitBytes 32 = 1 := rfl
        omega
      · omega

theorem packParagraphs_le {chunks : List Text} {paragraphs packed : List Text}
    (hcut : ∀ para ∈ paragraphs, maxBytes < byteLength para →
      OnlyAsciiCut maxBytes (splitSentences [] false para))
    (hchunks : ∀ c ∈ chunks, byteLength c ≤ maxBytes) (hbuf : byteLength buf ≤ maxBytes)
    (h : packParagraphs maxBytes chunks buf paragraphs = some packed) :
    ∀ c ∈ packed, byteLength c ≤ maxBytes := by
  induction paragraphs generalizing chunks buf with
  | nil =>
    obtain rfl := some.inj h
    exact flush_le hchunks hbuf
  | cons para rest ih =>
    obtain ⟨hthis, hrest⟩ := forall_mem_cons.mp hcut
    rw [packParagraphs] at h
    split at h
    next hlong =>
      obtain ⟨parts, hparts, h⟩ := bind_eq_some_iff.mp h
      refine ih hrest (fun c hc => ?_) (Nat.zero_le _) h
      rcases mem_append.mp hc with hc | hc
      · exact flush_le hchunks hbuf c hc
      · exact splitOversized_le (hthis hlong) (fun _ hno => by cases hno) (Nat.zero_le _) hparts
          c hc
    · split at h
      · exact ih hrest (flush_le hchunks hbuf) (by omega) h
      next hfits =>
        refine ih hrest hchunks ?_ h
        split
        · have happend := byteLength_append_le buf (10 :: 10 :: para)
          have hfirst := byteLength_cons_le 10 (10 :: para)
          have hsecond := byteLength_cons_le 10 para
          have hbreak : unitBytes 10 = 1 := rfl
          omega
        · omega

/-! ## The overlap -/

theorem overlapOf_suffix (prev : Text) : overlapOf prev <:+ prev := by
  unfold overlapOf
  dsimp only
  split
  · exact (drop_suffix _ _).trans (drop_suffix _ _)
  · exact drop_suffix _ _

theorem length_overlapOf (prev : Text) : (overlapOf prev).length ≤ 160 := by
  have htail : (prev.drop (prev.length - CHUNK_DEFAULT_OVERLAP_TOKENS * 4 / 2)).length ≤ 160 := by
    rw [length_drop, CHUNK_DEFAULT_OVERLAP_TOKENS]
    omega
  unfold overlapOf
  dsimp only
  split
  · rw [length_drop]
    omega
  · exact htail

/-- What the overlap makes of a chunk. -/
theorem withOverlap_spec {n : Nat} {P : Nat → Prop} (hmark : P 0x2026) (hbreak : P 10)
    {packed : List Text} {prev : Text} (hprev : ∀ unit ∈ prev, P unit)
    (h : ∀ c ∈ packed, byteLength c ≤ n ∧ ∀ unit ∈ c, P unit) :
    ∀ c ∈ withOverlap prev packed, byteLength c ≤ n + 485 ∧ ∀ unit ∈ c, P unit := by
  induction packed generalizing prev with
  | nil => simp [withOverlap]
  | cons chunk packed ih =>
    obtain ⟨⟨hsize, hunits⟩, hrest⟩ := forall_mem_cons.mp h
    have hnew : ∀ c, c = (if overlapOf prev ≠ [] then
        0x2026 :: overlapOf prev ++ 10 :: 10 :: chunk else chunk) →
        byteLength c ≤ n + 485 ∧ ∀ unit ∈ c, P unit := by
      intro c hc
      rw [hc]
      split
      · constructor
        · have hmark := byteLength_cons_le 0x2026 (overlapOf prev ++ 10 :: 10 :: chunk)
          have happend := byteLength_append_le (overlapOf prev) (10 :: 10 :: chunk)
          have hfirst := byteLength_cons_le 10 (10 :: chunk)
          have hsecond := byteLength_cons_le 10 chunk
          have hle := byteLength_le (overlapOf prev)
          have hlength := length_overlapOf prev
          have hthree : unitBytes 0x2026 = 3 := by decide
          have hone : unitBytes 10 = 1 := by decide
          rw [cons_append]
          omega
        · intro unit hunit
          simp only [cons_append, mem_cons, mem_append] at hunit
          rcases hunit with rfl | hunit | rfl | rfl | hunit
          · exact hmark
          · exact hprev unit ((overlapOf_suffix prev).subset hunit)
          · exact hbreak
          · exact hbreak
          · exact hunits unit hunit
      · exact ⟨by omega, hunits⟩
    intro c hc
    rw [withOverlap] at hc
    rcases mem_cons.mp hc with hc | hc
    · exact hnew c hc
    · exact ih (hnew _ rfl).2 hrest c hc

theorem wholeCharacters_of_plain {text : Text} (h : ∀ unit ∈ text, ¬ IsSurrogate unit) :
    wholeCharacters text = true := by
  induction text using wholeCharacters.induct with
  | case1 => rfl
  | case2 unit => simpa [wholeCharacters] using h unit mem_cons_self
  | case3 high low rest hpair ih =>
    exact absurd ⟨hpair.1.1, by omega⟩ (h high mem_cons_self)
  | case4 high low rest hpair ih =>
    obtain ⟨hhigh, hrest⟩ := forall_mem_cons.mp h
    rw [wholeCharacters, if_neg hpair, ih hrest]
    simpa using hhigh

structure Fits (content : Text) (targetTokens : Int) : Prop where
  room : targetTokens ≤ 1926
  cut : ∀ para ∈ paragraphsOf content, (targetTokens * 4).toNat < byteLength para →
    OnlyAsciiCut (targetTokens * 4).toNat (splitSentences [] false para)
  plane : ∀ unit ∈ content, ¬ IsSurrogate unit

end Almyty.Memory.Documents
