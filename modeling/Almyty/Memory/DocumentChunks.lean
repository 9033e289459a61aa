import Almyty.Lib.JsText

/-!
# Splitting a document: `document-chunks.helper.ts`

A document is cut at its blank lines, its paragraphs are packed into chunks up to a budget of bytes,
and a paragraph over the budget is cut at the ends of its sentences, or anywhere. Each chunk but the
first then begins with the end of the one before it.

With a budget of at least a byte this ends (`chunkText_isSome`). With none, the loop that cuts a
sentence anywhere goes on for ever. No chunk is empty (`chunkText_ne_nil`).

Mirroring notes:
- What a cut leaves of a surrogate pair counts three bytes.
-/

namespace Almyty.Memory.Documents

open Almyty.Lib Option

abbrev Text := List Nat

def units (text : String) : Text :=
  text.toList.flatMap fun c =>
    if c.toNat < 0x10000 then [c.toNat]
    else [0xd800 + (c.toNat - 0x10000) / 0x400, 0xdc00 + (c.toNat - 0x10000) % 0x400]

/-- `\s`. -/
def isSpace (unit : Nat) : Bool := Js.isSpace (Char.ofNat unit)

def trim (text : Text) : Text :=
  ((text.dropWhile isSpace).reverse.dropWhile isSpace).reverse

def unitBytes (unit : Nat) : Nat :=
  if unit < 0x80 then 1 else if unit < 0x800 then 2 else 3

def byteLength : Text → Nat
  | [] => 0
  | [unit] => unitBytes unit
  | high :: low :: rest =>
    if (0xd800 ≤ high ∧ high < 0xdc00) ∧ (0xdc00 ≤ low ∧ low < 0xe000) then 4 + byteLength rest
    else unitBytes high + byteLength (low :: rest)

def CHUNK_DEFAULT_TOKENS : Int := 400

def CHUNK_DEFAULT_OVERLAP_TOKENS : Nat := 80

def CHUNK_HARD_CAP_BYTES : Int := 8 * 1024

/-! ## Paragraphs and sentences -/

def blankLines (rest : Text) : Option Nat :=
  let run := rest.takeWhile isSpace
  if run.contains 10 then some (run.length - (run.reverse.takeWhile (· ≠ 10)).length) else none

def splitBlankLines (piece : Text) : Nat → Text → List Text
  | _, [] => [piece.reverse]
  | left + 1, _ :: rest => splitBlankLines piece left rest
  | 0, unit :: rest =>
    match if unit = 10 then blankLines rest else none with
    | some left => piece.reverse :: splitBlankLines [] left rest
    | none => splitBlankLines (unit :: piece) 0 rest

def paragraphsOf (content : Text) : List Text :=
  ((splitBlankLines [] 0 content).map trim).filter (· ≠ [])

def splitSentences (piece : Text) (separator : Bool) : Text → List Text
  | [] => [piece.reverse]
  | unit :: rest =>
    if separator && isSpace unit then splitSentences [] true rest
    else if isSpace unit && piece.head?.any (['.', '!', '?'].map Char.toNat).contains then
      piece.reverse :: splitSentences [] true rest
    else splitSentences (unit :: piece) false rest

/-! ## Chunks -/

/-- A text cut every so many code units, in at most so many pieces. -/
def slices (size : Nat) : Nat → Text → List Text
  | 0, _ => []
  | pieces + 1, text =>
    if text = [] then [] else text.take size :: slices size pieces (text.drop size)

def hardSplit (maxBytes : Nat) (sentence : Text) : Option (List Text) :=
  -- the step of the source's loop is `maxBytes`
  if maxBytes = 0 then none else some (slices maxBytes sentence.length sentence)

def flush (chunks : List Text) (buf : Text) : List Text :=
  if buf ≠ [] then chunks ++ [buf] else chunks

def splitOversized (maxBytes : Nat) (out : List Text) (buf : Text) :
    List Text → Option (List Text)
  | [] => some (flush out buf)
  | sentence :: rest =>
    if maxBytes < byteLength buf + 1 + byteLength sentence then
      if maxBytes < byteLength sentence then
        (hardSplit maxBytes sentence).bind fun pieces =>
          splitOversized maxBytes (flush out buf ++ pieces) [] rest
      else splitOversized maxBytes (flush out buf) sentence rest
    else splitOversized maxBytes out (if buf ≠ [] then buf ++ 32 :: sentence else sentence) rest

def packParagraphs (targetBytes : Nat) (chunks : List Text) (buf : Text) :
    List Text → Option (List Text)
  | [] => some (flush chunks buf)
  | para :: rest =>
    if targetBytes < byteLength para then
      (splitOversized targetBytes [] [] (splitSentences [] false para)).bind fun parts =>
        packParagraphs targetBytes (flush chunks buf ++ parts) [] rest
    else if targetBytes < byteLength buf + 2 + byteLength para then
      packParagraphs targetBytes (flush chunks buf) para rest
    else
      packParagraphs targetBytes chunks (if buf ≠ [] then buf ++ 10 :: 10 :: para else para) rest

/-- The end of a chunk that the next one begins with. -/
def overlapOf (prev : Text) : Text :=
  let tail := prev.drop (prev.length - CHUNK_DEFAULT_OVERLAP_TOKENS * 4 / 2)
  let ws := tail.idxOf 32
  if 0 < ws ∧ ws < tail.length then tail.drop (ws + 1) else tail

def withOverlap (prev : Text) : List Text → List Text
  | [] => []
  | chunk :: rest =>
    let chunk' :=
      if overlapOf prev ≠ [] then 0x2026 :: overlapOf prev ++ 10 :: 10 :: chunk else chunk
    chunk' :: withOverlap chunk' rest

def chunkText (content : Text) (targetTokens : Int) : Option (List Text) :=
  let targetBytes := (min (targetTokens * 4) CHUNK_HARD_CAP_BYTES).toNat
  (packParagraphs targetBytes [] [] (paragraphsOf content)).map fun
    | [] => []
    | first :: rest => first :: withOverlap first rest

theorem splitOversized_isSome {maxBytes : Nat} (h : 0 < maxBytes) (out : List Text) (buf : Text)
    (sentences : List Text) : (splitOversized maxBytes out buf sentences).isSome = true := by
  induction sentences generalizing out buf with
  | nil => rfl
  | cons sentence rest ih =>
    have hcut : hardSplit maxBytes sentence = some (slices maxBytes sentence.length sentence) :=
      if_neg (by omega)
    rw [splitOversized]
    split
    · split
      · rw [hcut]
        exact ih _ _
      · exact ih _ _
    · exact ih _ _

theorem packParagraphs_isSome {targetBytes : Nat} (h : 0 < targetBytes) (chunks : List Text)
    (buf : Text) (paragraphs : List Text) :
    (packParagraphs targetBytes chunks buf paragraphs).isSome = true := by
  induction paragraphs generalizing chunks buf with
  | nil => rfl
  | cons para rest ih =>
    obtain ⟨parts, hparts⟩ :=
      isSome_iff_exists.mp (splitOversized_isSome h [] [] (splitSentences [] false para))
    rw [packParagraphs, hparts]
    split
    · exact ih _ _
    · split <;> exact ih _ _

theorem chunkText_isSome (content : Text) {targetTokens : Int} (h : 0 < targetTokens) :
    (chunkText content targetTokens).isSome = true := by
  have hcap : CHUNK_HARD_CAP_BYTES = 8192 := rfl
  rw [chunkText, isSome_map]
  exact packParagraphs_isSome (by omega) [] [] _

/-! ## No chunk is empty -/

variable {chunks : List Text}

theorem ne_nil_of_mem_flush {buf : Text} (h : ∀ chunk ∈ chunks, chunk ≠ []) :
    ∀ chunk ∈ flush chunks buf, chunk ≠ [] := by
  intro chunk hchunk
  unfold flush at hchunk
  split at hchunk
  next hbuf =>
    rcases List.mem_append.mp hchunk with hold | hnew
    · exact h chunk hold
    · rwa [List.mem_singleton.mp hnew]
  · exact h chunk hchunk

theorem ne_nil_of_mem_slices {size pieces : Nat} (hsize : 0 < size) {text : Text} :
    ∀ piece ∈ slices size pieces text, piece ≠ [] := by
  induction pieces generalizing text with
  | zero => simp [slices]
  | succ pieces ih =>
    intro piece hpiece
    rw [slices] at hpiece
    split at hpiece
    · cases hpiece
    next htext =>
      rcases List.mem_cons.mp hpiece with rfl | hpiece
      · simp [List.take_eq_nil_iff, htext, Nat.pos_iff_ne_zero.mp hsize]
      · exact ih piece hpiece

theorem ne_nil_of_mem_hardSplit {maxBytes : Nat} {sentence : Text} {pieces : List Text}
    (h : hardSplit maxBytes sentence = some pieces) : ∀ piece ∈ pieces, piece ≠ [] := by
  unfold hardSplit at h
  split at h
  · cases h
  next hsize =>
    obtain rfl := some.inj h
    exact ne_nil_of_mem_slices (by omega)

theorem ne_nil_of_mem_append {a b : List Text} (ha : ∀ chunk ∈ a, chunk ≠ [])
    (hb : ∀ chunk ∈ b, chunk ≠ []) : ∀ chunk ∈ a ++ b, chunk ≠ [] := by
  intro chunk hchunk
  rcases List.mem_append.mp hchunk with h | h
  · exact ha chunk h
  · exact hb chunk h

theorem ne_nil_of_mem_splitOversized {maxBytes : Nat} {out : List Text} {buf : Text}
    {sentences parts : List Text} (hout : ∀ chunk ∈ out, chunk ≠ [])
    (h : splitOversized maxBytes out buf sentences = some parts) : ∀ part ∈ parts, part ≠ [] := by
  induction sentences generalizing out buf with
  | nil =>
    obtain rfl := some.inj h
    exact ne_nil_of_mem_flush hout
  | cons sentence rest ih =>
    rw [splitOversized] at h
    split at h
    · split at h
      · obtain ⟨pieces, hpieces, h⟩ := bind_eq_some_iff.mp h
        exact ih (ne_nil_of_mem_append (ne_nil_of_mem_flush hout) (ne_nil_of_mem_hardSplit hpieces)) h
      · exact ih (ne_nil_of_mem_flush hout) h
    · exact ih hout h

theorem ne_nil_of_mem_packParagraphs {targetBytes : Nat} {buf : Text}
    {paragraphs packed : List Text} (hchunks : ∀ chunk ∈ chunks, chunk ≠ [])
    (h : packParagraphs targetBytes chunks buf paragraphs = some packed) :
    ∀ chunk ∈ packed, chunk ≠ [] := by
  induction paragraphs generalizing chunks buf with
  | nil =>
    obtain rfl := some.inj h
    exact ne_nil_of_mem_flush hchunks
  | cons para rest ih =>
    rw [packParagraphs] at h
    split at h
    · obtain ⟨parts, hparts, h⟩ := bind_eq_some_iff.mp h
      exact ih (ne_nil_of_mem_append (ne_nil_of_mem_flush hchunks)
        (ne_nil_of_mem_splitOversized (fun _ hnil => by cases hnil) hparts)) h
    · split at h
      · exact ih (ne_nil_of_mem_flush hchunks) h
      · exact ih hchunks h

theorem ne_nil_of_mem_withOverlap {prev : Text} (h : ∀ chunk ∈ chunks, chunk ≠ []) :
    ∀ chunk ∈ withOverlap prev chunks, chunk ≠ [] := by
  induction chunks generalizing prev with
  | nil => simp [withOverlap]
  | cons chunk rest ih =>
    intro piece hpiece
    rw [withOverlap, List.mem_cons] at hpiece
    rcases hpiece with heq | hpiece
    · rw [heq]
      split
      · exact List.cons_ne_nil _ _
      · exact h chunk List.mem_cons_self
    · exact ih (fun c hc => h c (List.mem_cons_of_mem _ hc)) piece hpiece

theorem chunkText_ne_nil {content : Text} {targetTokens : Int}
    (h : chunkText content targetTokens = some chunks) : ∀ chunk ∈ chunks, chunk ≠ [] := by
  obtain ⟨packed, hpacked, rfl⟩ := map_eq_some_iff.mp h
  have hnone : ∀ chunk ∈ ([] : List Text), chunk ≠ [] := by simp
  have hne := ne_nil_of_mem_packParagraphs hnone hpacked
  cases packed with
  | nil => simp
  | cons first rest =>
    intro chunk hchunk
    rcases List.mem_cons.mp hchunk with rfl | hchunk
    · exact hne chunk List.mem_cons_self
    · exact ne_nil_of_mem_withOverlap (fun c hc => hne c (List.mem_cons_of_mem _ hc)) chunk hchunk

end Almyty.Memory.Documents
