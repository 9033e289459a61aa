import Almyty.Lib.UrlComponent

/-!
# URL templates

A template is the text of a URL whose path has placeholders, `{name}`, each a segment of its own. A
placeholder is filled with a value as `encodeURIComponent` writes it, or stays. `stays_iff` says
when the parser sees the template in it (`Stays`): where no segment is one of dots, but the last may
be.
-/

namespace Almyty.Lib.Url

open List

inductive Segment
  | literal (text : List Char)
  | placeholder (name : List Char)

/-- The text of a placeholder. -/
def braces (name : List Char) : List Char := '\x7b' :: (name ++ ['\x7d'])

def Segment.fill (value : List Char → Option String) : Segment → List Char
  | .literal text => text
  | .placeholder name => (value name).elim (braces name) Js.encodeURIComponent

def isQueryOrFragment (c : Char) : Bool := c = '?' || c = '#'

/-- A URL with placeholders in its path. -/
structure Template where
  /-- The scheme and the authority, as they are written. -/
  head : List Char
  segments : List (Char × Segment)
  /-- The query and the fragment. -/
  tail : List Char
  scheme : List Char
  slashes : List Char
  authority : List Char
  head_eq : (head.dropWhile isControl).filter (!isBreak ·) = scheme ++ ':' :: (slashes ++ authority)
  scheme_chars : ∀ c ∈ scheme, isSchemeChar c = true
  slashes_chars : ∀ c ∈ slashes, isSlash c = true
  authority_ne : authority ≠ []
  authority_chars : ∀ c ∈ authority, isDelimiter c = false
  segments_ne : segments ≠ []
  slash : ∀ e ∈ segments, isSlash e.1 = true
  literal_chars : ∀ slash text, (slash, Segment.literal text) ∈ segments →
    ∀ c ∈ text, isDelimiter c = false
  name_chars : ∀ slash name, (slash, Segment.placeholder name) ∈ segments →
    ∀ c ∈ name, isDelimiter c = false
  tail_head : ∀ c ∈ tail.head?, isQueryOrFragment c = true

namespace Template

def joined (segments : List (Char × List Char)) : List Char :=
  segments.flatMap fun e => e.1 :: e.2

def filled (T : Template) (value : List Char → Option String) : List (Char × List Char) :=
  T.segments.map fun e => (e.1, e.2.fill value)

/-- The URL with values in the placeholders' places. -/
def fill (T : Template) (value : List Char → Option String) : List Char :=
  T.head ++ (joined (T.filled value) ++ T.tail)

def text (T : Template) : List Char := T.fill fun _ => none

end Template

def cleanText (atEnd : Bool) (text : List Char) : List Char :=
  (if atEnd then text.rdropWhile isControl else text).filter (!isBreak ·)

def cleanSegments (atEnd : Bool) : List (Char × List Char) → List (Char × List Char)
  | [] => []
  | [last] => [(last.1, cleanText atEnd last.2)]
  | segment :: next :: rest =>
    (segment.1, cleanText false segment.2) :: cleanSegments atEnd (next :: rest)

theorem getElem?_cleanSegments (atEnd : Bool) (segments : List (Char × List Char)) (i : Nat) :
    (cleanSegments atEnd segments)[i]? =
      segments[i]?.map fun e => (e.1, cleanText (atEnd && i + 1 = segments.length) e.2) := by
  induction segments generalizing i with
  | nil => rfl
  | cons segment rest ih =>
    cases rest with
    | nil =>
      cases i with
      | zero | succ => simp [cleanSegments]
    | cons next rest =>
      cases i with
      | zero => simp [cleanSegments]
      | succ i =>
        rw [cleanSegments, List.getElem?_cons_succ, ih, List.getElem?_cons_succ]
        simp

theorem length_cleanSegments (atEnd : Bool) (segments : List (Char × List Char)) :
    (cleanSegments atEnd segments).length = segments.length := by
  induction segments with
  | nil => rfl
  | cons segment rest ih =>
    cases rest with
    | nil => rfl
    | cons next rest =>
      rw [cleanSegments, length_cons, ih]
      rfl

/-! ## Cleaning a filled template -/

theorem slash_not_control {c : Char} (h : isSlash c = true) : isControl c = false := by
  rw [isSlash, Bool.or_eq_true, decide_eq_true_eq, decide_eq_true_eq] at h
  rcases h with rfl | rfl <;> decide

theorem slash_not_break {c : Char} (h : isSlash c = true) : isBreak c = false := by
  rw [isSlash, Bool.or_eq_true, decide_eq_true_eq, decide_eq_true_eq] at h
  rcases h with rfl | rfl <;> decide

theorem query_not_control {c : Char} (h : isQueryOrFragment c = true) : isControl c = false := by
  rw [isQueryOrFragment, Bool.or_eq_true, decide_eq_true_eq, decide_eq_true_eq] at h
  rcases h with rfl | rfl <;> decide

theorem rdropWhile_append {p : Char → Bool} {front : List Char} (h : front.rdropWhile p = front)
    (text : List Char) : (front ++ text).rdropWhile p = front ++ text.rdropWhile p := by
  induction text using List.reverseRecOn with
  | nil => rw [append_nil, h, rdropWhile_nil, append_nil]
  | append_singleton text c ih =>
    rw [← append_assoc, rdropWhile_concat, rdropWhile_concat]
    split
    · exact ih
    · rw [append_assoc]

theorem rdropWhile_concat_slash {front : List Char} {c : Char} (hc : isControl c = false) :
    (front ++ [c]).rdropWhile isControl = front ++ [c] :=
  rdropWhile_concat_neg _ _ _ (by rw [hc]; exact Bool.false_ne_true)

open Template in
theorem clean_joined {segments : List (Char × List Char)} {tail : List Char}
    (hne : segments ≠ []) (hslash : ∀ e ∈ segments, isSlash e.1 = true)
    (htail : ∀ c ∈ tail.head?, isQueryOrFragment c = true) (front : List Char) :
    ((front ++ (joined segments ++ tail)).rdropWhile isControl).filter (!isBreak ·) =
      front.filter (!isBreak ·) ++ (joined (cleanSegments tail.isEmpty segments) ++
        (tail.rdropWhile isControl).filter (!isBreak ·)) := by
  induction segments generalizing front with
  | nil => exact absurd rfl hne
  | cons segment rest ih =>
    have hhead := hslash segment mem_cons_self
    have hkept : [segment.1].filter (!isBreak ·) = [segment.1] := by
      simp [slash_not_break hhead]
    cases rest with
    | cons next rest =>
      have hregroup : front ++ (joined (segment :: next :: rest) ++ tail) =
          (front ++ [segment.1] ++ segment.2) ++ (joined (next :: rest) ++ tail) := by
        simp [joined]
      rw [hregroup, ih (cons_ne_nil _ _) (fun e he => hslash e (mem_cons_of_mem _ he)),
        filter_append, filter_append, hkept, cleanSegments]
      simp [joined, cleanText]
    | nil =>
      cases tail with
      | nil =>
        have hregroup : front ++ (joined [segment] ++ []) = (front ++ [segment.1]) ++ segment.2 := by
          simp [joined]
        rw [hregroup, rdropWhile_append (rdropWhile_concat_slash (slash_not_control hhead)),
          filter_append, filter_append, hkept]
        simp [joined, cleanSegments, cleanText]
      | cons q tail =>
        have hq := query_not_control (htail q rfl)
        have hregroup : front ++ (joined [segment] ++ q :: tail) =
            (front ++ [segment.1] ++ segment.2 ++ [q]) ++ tail := by simp [joined]
        have hqtail : (q :: tail).rdropWhile isControl = [q] ++ tail.rdropWhile isControl :=
          @rdropWhile_append isControl [q] (@rdropWhile_concat_slash [] q hq) tail
        rw [hregroup, rdropWhile_append (rdropWhile_concat_slash hq), hqtail]
        simp only [filter_append, hkept]
        simp [joined, cleanSegments, cleanText]

namespace Template

def cleanHead (T : Template) : List Char := T.scheme ++ ':' :: (T.slashes ++ T.authority)

def cleanTail (T : Template) : List Char := (T.tail.rdropWhile isControl).filter (!isBreak ·)

theorem filled_ne (T : Template) (value : List Char → Option String) : T.filled value ≠ [] := by
  intro h
  exact T.segments_ne (map_eq_nil_iff.mp h)

theorem slash_filled (T : Template) (value : List Char → Option String) :
    ∀ e ∈ T.filled value, isSlash e.1 = true := by
  intro e he
  obtain ⟨e', he', rfl⟩ := mem_map.mp he
  exact T.slash e' he'

theorem clean_fill (T : Template) (value : List Char → Option String) :
    clean (T.fill value) =
      T.cleanHead ++ (joined (cleanSegments T.tail.isEmpty (T.filled value)) ++ T.cleanTail) := by
  have hhead : T.head.dropWhile isControl ≠ [] := by
    intro hnil
    have heq := T.head_eq
    rw [hnil] at heq
    exact absurd heq (by simp)
  have hdrop : (T.fill value).dropWhile isControl =
      T.head.dropWhile isControl ++ (joined (T.filled value) ++ T.tail) := by
    rw [fill, dropWhile_append, if_neg (by simpa using hhead)]
  rw [clean, hdrop, clean_joined (T.filled_ne value) (T.slash_filled value) T.tail_head, T.head_eq]
  rfl

end Template

/-! ## Reading a filled template -/

section

variable {segments : List (Char × List Char)} {tail : List Char}

theorem not_delimiter_cleanText {text : List Char} (h : ∀ c ∈ text, isDelimiter c = false)
    (atEnd : Bool) : ∀ c ∈ cleanText atEnd text, isDelimiter c = false := by
  intro c hc
  unfold cleanText at hc
  have hmem := (mem_filter.mp hc).1
  split at hmem
  · exact h c ((List.rdropWhile_prefix _ _).subset hmem)
  · exact h c hmem

theorem splitSlashes_append {segment : List Char} (h : ∀ c ∈ segment, isSlash c = false)
    (rest : List Char) (hrest : ∀ c ∈ rest.head?, isSlash c = true) :
    splitSlashes (segment ++ rest) = segment :: (splitSlashes rest).tail := by
  induction segment with
  | nil =>
    cases rest with
    | nil => rfl
    | cons c rest => simp [splitSlashes, hrest c rfl]
  | cons c segment ih =>
    rw [cons_append, splitSlashes, h c mem_cons_self, if_neg Bool.false_ne_true,
      ih fun d hd => h d (mem_cons_of_mem _ hd)]

open Template in
theorem splitSlashes_joined (hslash : ∀ e ∈ segments, isSlash e.1 = true)
    (hplain : ∀ e ∈ segments, ∀ c ∈ e.2, isDelimiter c = false) :
    splitSlashes (joined segments) = [] :: segments.map Prod.snd := by
  induction segments with
  | nil => rfl
  | cons e rest ih =>
    have hrest := ih (fun e he => hslash e (mem_cons_of_mem _ he))
      fun e he => hplain e (mem_cons_of_mem _ he)
    have hsegment : ∀ c ∈ e.2, isSlash c = false := by
      intro c hc
      have hnot := hplain e mem_cons_self c hc
      simp only [isDelimiter, Bool.or_eq_false_iff] at hnot
      exact hnot.1.1
    have hhead : ∀ c ∈ (joined rest).head?, isSlash c = true := by
      intro c hc
      cases rest with
      | nil => cases hc
      | cons f rest =>
        obtain rfl : f.1 = c := Option.some.inj hc
        exact hslash f (mem_cons_of_mem _ mem_cons_self)
    show splitSlashes (e.1 :: (e.2 ++ joined rest)) = _
    rw [splitSlashes, hslash e mem_cons_self, if_pos rfl,
      splitSlashes_append hsegment _ hhead, hrest, tail_cons, map_cons]

open Template in
theorem joined_chars (hslash : ∀ e ∈ segments, isSlash e.1 = true)
    (hplain : ∀ e ∈ segments, ∀ c ∈ e.2, isDelimiter c = false) :
    ∀ c ∈ joined segments, c ≠ '?' ∧ c ≠ '#' := by
  intro c hc
  obtain ⟨e, he, hc⟩ := mem_flatMap.mp hc
  rcases mem_cons.mp hc with rfl | hc
  · have hslash := hslash e he
    constructor <;> intro heq <;> rw [heq] at hslash <;> exact absurd hslash (by decide)
  · have hnot := hplain e he c hc
    constructor <;> intro heq <;> rw [heq] at hnot <;> exact absurd hnot (by decide)

open Template in
theorem readPath_joined (hne : segments ≠ []) (hslash : ∀ e ∈ segments, isSlash e.1 = true)
    (hplain : ∀ e ∈ segments, ∀ c ∈ e.2, isDelimiter c = false)
    (htail : ∀ c ∈ tail.head?, isQueryOrFragment c = true) :
    readPath (joined segments ++ tail) =
      resolve [] (segments.map fun e => percentEncode pathSet e.2) := by
  have hchars := joined_chars hslash hplain
  have htake : (joined segments ++ tail).takeWhile (fun c => c ≠ '?' && c ≠ '#') =
      joined segments := by
    rw [takeWhile_append_of_pos fun c hc => by simp [hchars c hc]]
    cases tail with
    | nil => simp
    | cons q tail =>
      have hq := htail q rfl
      rw [isQueryOrFragment, Bool.or_eq_true, decide_eq_true_eq, decide_eq_true_eq] at hq
      rcases hq with rfl | rfl <;> simp
  obtain ⟨e, rest, rfl⟩ := exists_cons_of_ne_nil hne
  have hsplit := splitSlashes_joined hslash hplain
  have hhead : ((joined (e :: rest)).head?).any isSlash = true := hslash e mem_cons_self
  have htails : splitSlashes (joined (e :: rest)).tail = (e :: rest).map Prod.snd := by
    have hcons : joined (e :: rest) = e.1 :: (joined (e :: rest)).tail := rfl
    rw [hcons, splitSlashes, hslash e mem_cons_self, if_pos rfl] at hsplit
    exact (List.cons.inj hsplit).2
  unfold readPath
  dsimp only
  rw [htake, if_pos hhead, htails, map_map]
  rfl

open Template in
theorem readQuery_joined (hslash : ∀ e ∈ segments, isSlash e.1 = true)
    (hplain : ∀ e ∈ segments, ∀ c ∈ e.2, isDelimiter c = false) :
    readQuery (joined segments ++ tail) = readQuery tail := by
  have hchars := joined_chars hslash hplain
  unfold readQuery
  rw [dropWhile_append_of_pos fun c hc => by simp [hchars c hc]]

open Template in
theorem readFragment_joined (hslash : ∀ e ∈ segments, isSlash e.1 = true)
    (hplain : ∀ e ∈ segments, ∀ c ∈ e.2, isDelimiter c = false) :
    readFragment (joined segments ++ tail) = readFragment tail := by
  have hchars := joined_chars hslash hplain
  unfold readFragment
  rw [dropWhile_append_of_pos fun c hc => by simp [hchars c hc]]

end

namespace Template

variable {Origin : Type} {readOrigin : List Char → List Char → Option Origin} (T : Template)
  (value : List Char → Option String)

/-- The path's segments as the parser reads them, dots and all. -/
def asRead : List (List Char) :=
  (cleanSegments T.tail.isEmpty (T.filled value)).map fun e => percentEncode pathSet e.2

theorem length_asRead : (T.asRead value).length = T.segments.length := by
  rw [asRead, length_map, length_cleanSegments, filled, length_map]

def endsAt (i : Nat) : Bool := T.tail.isEmpty && i + 1 = T.segments.length

theorem getElem?_asRead (i : Nat) : (T.asRead value)[i]? =
    T.segments[i]?.map fun e => percentEncode pathSet (cleanText (T.endsAt i) (e.2.fill value)) := by
  have hlength : (T.filled value).length = T.segments.length := length_map _
  rw [asRead, List.getElem?_map, getElem?_cleanSegments, Option.map_map, filled, List.getElem?_map,
    Option.map_map, ← filled, hlength]
  rfl

theorem delimiter_braces {name : List Char} (h : ∀ c ∈ name, isDelimiter c = false) :
    ∀ c ∈ braces name, isDelimiter c = false := by
  intro c hc
  simp only [braces, mem_cons, mem_append, not_mem_nil, or_false] at hc
  rcases hc with rfl | hc | rfl
  · decide
  · exact h c hc
  · decide

theorem delimiter_filled : ∀ e ∈ T.filled value, ∀ c ∈ e.2, isDelimiter c = false := by
  intro e he
  obtain ⟨⟨slash, segment⟩, hmem, rfl⟩ := mem_map.mp he
  cases segment with
  | literal text => exact T.literal_chars slash text hmem
  | placeholder name =>
    show ∀ c ∈ (value name).elim (braces name) Js.encodeURIComponent, isDelimiter c = false
    cases value name with
    | none => exact delimiter_braces (T.name_chars slash name hmem)
    | some v =>
      intro c hc
      have hplain := encoded_plain v c hc
      simp only [isPlain, Bool.and_eq_true, Bool.not_eq_true'] at hplain
      exact hplain.1.1

theorem mem_cleanSegments {atEnd : Bool} {segments : List (Char × List Char)}
    {e : Char × List Char} (h : e ∈ cleanSegments atEnd segments) :
    ∃ e' ∈ segments, ∃ atEnd', e = (e'.1, cleanText atEnd' e'.2) := by
  obtain ⟨i, hi⟩ := List.mem_iff_getElem?.mp h
  rw [getElem?_cleanSegments, Option.map_eq_some_iff] at hi
  obtain ⟨e', he', heq⟩ := hi
  exact ⟨e', List.mem_of_getElem? he', _, heq.symm⟩

theorem cleanTail_head : ∀ c ∈ T.cleanTail.head?, isQueryOrFragment c = true := by
  have htail := T.tail_head
  unfold cleanTail
  cases hT : T.tail with
  | nil => simp
  | cons q tail =>
    rw [hT] at htail
    have hq := htail q rfl
    have hsplit : (q :: tail).rdropWhile isControl = [q] ++ tail.rdropWhile isControl :=
      @rdropWhile_append isControl [q]
        (@rdropWhile_concat_slash [] q (query_not_control hq)) tail
    have hbreak : isBreak q = false := by
      rw [isQueryOrFragment, Bool.or_eq_true, decide_eq_true_eq, decide_eq_true_eq] at hq
      rcases hq with rfl | rfl <;> decide
    intro c hc
    rw [hsplit] at hc
    simp only [singleton_append, filter_cons, hbreak, Bool.not_false, if_true,
      List.head?_cons, Option.mem_some_iff] at hc
    rw [← hc]
    exact hq

theorem parse_fill : parse readOrigin (T.fill value) =
    if isWebScheme (T.scheme.map Char.toLower) then
      (readOrigin (T.scheme.map Char.toLower) T.authority).map fun origin =>
        { origin
          path := resolve [] (T.asRead value)
          query := readQuery T.cleanTail
          fragment := readFragment T.cleanTail }
    else none := by
  have hslash : ∀ e ∈ cleanSegments T.tail.isEmpty (T.filled value), isSlash e.1 = true := by
    intro e he
    obtain ⟨e', he', _, rfl⟩ := mem_cleanSegments he
    exact T.slash_filled value e' he'
  have hplain : ∀ e ∈ cleanSegments T.tail.isEmpty (T.filled value), ∀ c ∈ e.2,
      isDelimiter c = false := by
    intro e he
    obtain ⟨e', he', _, rfl⟩ := mem_cleanSegments he
    exact not_delimiter_cleanText (T.delimiter_filled value e' he') _
  have hne : cleanSegments T.tail.isEmpty (T.filled value) ≠ [] := by
    rw [← length_pos_iff, length_cleanSegments, length_pos_iff]
    exact T.filled_ne value
  have hpath := readPath_joined hne hslash hplain T.cleanTail_head
  have hquery : readQuery (joined (cleanSegments T.tail.isEmpty (T.filled value)) ++ T.cleanTail) =
      readQuery T.cleanTail := readQuery_joined hslash hplain
  have hfragment : readFragment (joined (cleanSegments T.tail.isEmpty (T.filled value)) ++
      T.cleanTail) = readFragment T.cleanTail := readFragment_joined hslash hplain
  have hhead : ∀ c ∈ (joined (cleanSegments T.tail.isEmpty (T.filled value)) ++
      T.cleanTail).head?, isSlash c = true := by
    obtain ⟨e, rest, heq⟩ := exists_cons_of_ne_nil hne
    intro c hc
    rw [heq] at hc
    obtain rfl : e.1 = c := Option.some.inj hc
    exact hslash e (by rw [heq]; exact mem_cons_self)
  rw [parse, T.clean_fill value]
  generalize joined (cleanSegments T.tail.isEmpty (T.filled value)) ++ T.cleanTail = rest
    at hpath hquery hfragment hhead ⊢
  have hscheme : splitScheme (T.cleanHead ++ rest) =
      some (T.scheme.map Char.toLower, T.slashes ++ (T.authority ++ rest)) := by
    have hcolon : isSchemeChar ':' = false := by decide
    have hregroup : T.cleanHead ++ rest =
        T.scheme ++ ':' :: (T.slashes ++ (T.authority ++ rest)) := by simp [cleanHead]
    unfold splitScheme
    rw [hregroup, dropWhile_append_of_pos T.scheme_chars,
      takeWhile_append_of_pos T.scheme_chars, dropWhile_cons_of_neg (by simp [hcolon]),
      takeWhile_cons_of_neg (by simp [hcolon]), append_nil]
    rfl
  have hafter : (T.slashes ++ (T.authority ++ rest)).dropWhile isSlash = T.authority ++ rest := by
    rw [dropWhile_append_of_pos T.slashes_chars]
    obtain ⟨c, authority, heq⟩ := exists_cons_of_ne_nil T.authority_ne
    have hc := T.authority_chars c (by rw [heq]; exact mem_cons_self)
    simp only [isDelimiter, Bool.or_eq_false_iff] at hc
    rw [heq, cons_append, dropWhile_cons_of_neg (by simp [hc.1.1])]
  have hstop : ∀ c ∈ T.authority, (!isDelimiter c) = true := by
    intro c hc
    rw [T.authority_chars c hc]
    rfl
  have hrest : rest.takeWhile (!isDelimiter ·) = [] ∧ rest.dropWhile (!isDelimiter ·) = rest := by
    cases rest with
    | nil => exact ⟨rfl, rfl⟩
    | cons c rest =>
      have hc : isDelimiter c = true := by simp [isDelimiter, hhead c rfl]
      simp [hc]
  rw [hscheme]
  dsimp only
  rw [hafter, takeWhile_append_of_pos hstop, dropWhile_append_of_pos hstop, hrest.1,
    hrest.2, append_nil, hpath, hquery, hfragment]
  rfl

/-! ## A template that is filled -/

/-- To the parser, the URL is what the template is: its origin, as many segments, the literal ones
at their places, its query and its fragment. -/
def Stays (readOrigin : List Char → List Char → Option Origin) (T : Template) (origin : Origin)
    (requested : List Char) : Prop :=
  ∃ url, parse readOrigin requested = some url ∧ url.origin = origin ∧
    url.path.length = T.segments.length ∧
    (∀ (i : Nat) slash text, T.segments[i]? = some (slash, .literal text) →
      url.path[i]? = (T.asRead fun _ => none)[i]?) ∧
    url.query = readQuery T.cleanTail ∧ url.fragment = readFragment T.cleanTail

structure Undotted (T : Template) (value : List Char → Option String) : Prop where
  literal : ∀ (i : Nat) slash text, T.segments[i]? = some (slash, .literal text) →
    ∀ segment, (T.asRead fun _ => none)[i]? = some segment → isDots segment = false
  inner : ∀ (i : Nat) slash name v, T.segments[i]? = some (slash, .placeholder name) →
    value name = some v → i + 1 < T.segments.length → v ≠ "." ∧ v ≠ ".."
  last : ∀ (i : Nat) slash name v, T.segments[i]? = some (slash, .placeholder name) →
    value name = some v → i + 1 = T.segments.length → v = ".." → T.segments.length = 1

theorem getElem?_asRead_literal {i : Nat} {slash : Char} {text : List Char}
    (h : T.segments[i]? = some (slash, .literal text)) :
    (T.asRead value)[i]? = (T.asRead fun _ => none)[i]? := by
  rw [getElem?_asRead, getElem?_asRead, h]
  rfl

theorem cleanText_plain {text : List Char} (h : ∀ c ∈ text, isPlain c = true) (atEnd : Bool) :
    cleanText atEnd text = text := by
  have hcontrol : ∀ c ∈ text, isControl c = false := by
    intro c hc
    have hplain := h c hc
    simp only [isPlain, Bool.and_eq_true, Bool.not_eq_true'] at hplain
    exact hplain.1.2
  have hbreak : ∀ c ∈ text, (!isBreak c) = true := by
    intro c hc
    have hnot := hcontrol c hc
    rw [Bool.not_eq_true', Bool.eq_false_iff]
    intro hc'
    rw [isBreak, Bool.or_eq_true, Bool.or_eq_true, decide_eq_true_eq, decide_eq_true_eq,
      decide_eq_true_eq] at hc'
    rcases hc' with (rfl | rfl) | rfl <;> exact absurd hnot (by decide)
  have hstrip : text.rdropWhile isControl = text := by
    rw [rdropWhile_eq_self_iff]
    intro hne
    rw [hcontrol _ (getLast_mem hne)]
    exact Bool.false_ne_true
  unfold cleanText
  rw [hstrip, ite_self, filter_eq_self]
  exact hbreak

theorem getElem?_asRead_value {i : Nat} {slash : Char} {name : List Char} {v : String}
    (h : T.segments[i]? = some (slash, .placeholder name)) (hv : value name = some v) :
    (T.asRead value)[i]? = some (Js.encodeURIComponent v) := by
  have hfill : (Segment.placeholder name).fill value = Js.encodeURIComponent v := by
    rw [Segment.fill, hv]
    rfl
  rw [getElem?_asRead, h, Option.map_some, hfill, cleanText_plain (encoded_plain v),
    percentEncode_plain (encoded_plain v)]

theorem isDots_unfilled {i : Nat} {slash : Char} {name : List Char}
    (h : T.segments[i]? = some (slash, .placeholder name)) (hv : value name = none)
    {segment : List Char} (hsegment : (T.asRead value)[i]? = some segment) :
    isDots segment = false := by
  have hclean (atEnd : Bool) : ∃ rest, cleanText atEnd (braces name) = '\x7b' :: rest := by
    have hstrip : (braces name).rdropWhile isControl = braces name :=
      @rdropWhile_concat_slash ('\x7b' :: name) _ (by decide)
    unfold cleanText
    rw [hstrip, ite_self]
    exact ⟨_, rfl⟩
  have hfill : (Segment.placeholder name).fill value = braces name := by
    rw [Segment.fill, hv]
    rfl
  rw [getElem?_asRead, h, Option.map_some, hfill] at hsegment
  obtain ⟨rest, hrest⟩ := hclean (T.endsAt i)
  obtain rfl := Option.some.inj hsegment
  rw [hrest]
  have hread : percentEncode pathSet ('\x7b' :: rest) =
      '%' :: '7' :: 'B' :: percentEncode pathSet rest := rfl
  have hundot (t : List Char) : undot ('%' :: '7' :: t) = '%' :: undot ('7' :: t) :=
    undot_cons fun _ e rest heq => absurd (List.cons.inj heq).1 (by decide)
  rw [hread, isDots, isSingleDot, isDoubleDot, hundot]
  simp

theorem stays_iff {origin : Origin} (hscheme : isWebScheme (T.scheme.map Char.toLower) = true)
    (horigin : readOrigin (T.scheme.map Char.toLower) T.authority = some origin) :
    Stays readOrigin T origin (T.fill value) ↔ T.Undotted value := by
  have hparse : parse readOrigin (T.fill value) = _ := T.parse_fill value
  rw [hscheme, if_pos rfl, horigin, Option.map_some] at hparse
  have hlength := T.length_asRead value
  have hne : T.asRead value ≠ [] := by
    rw [← length_pos_iff, hlength, length_pos_iff]
    exact T.segments_ne
  have hkept := length_resolve_iff [] (T.asRead value)
  simp only [length_nil, Nat.zero_add] at hkept
  constructor
  · rintro ⟨url, hurl, -, hcount, hliterals, -, -⟩
    rw [hparse] at hurl
    obtain rfl := Option.some.inj hurl
    dsimp only at hcount hliterals
    have hkeeps := hkept.mp (hcount.trans hlength.symm)
    obtain ⟨hinner, hlast⟩ := (kept_iff hne).mp hkeeps
    rw [hlength] at hinner hlast
    refine ⟨fun i slash text hi segment hsegment => ?_, fun i slash name v hi hv hlt => ?_,
      fun i slash name v hi hv heq hdots => ?_⟩
    · have hread := T.getElem?_asRead_literal value hi
      rcases Nat.lt_or_ge (i + 1) T.segments.length with hlt | hge
      · exact hinner i segment (hread.trans hsegment) hlt
      · -- the last segment is what it ends as
        have hiin : i < T.segments.length := (List.getElem?_eq_some_iff.mp hi).1
        have hplace := hliterals i slash text hi
        rw [getElem?_resolve hkeeps, hlength, hread, hsegment, Option.map_some,
          if_pos (by omega)] at hplace
        exact (ending_eq_self_iff segment).mp (Option.some.inj hplace)
    · have hread := T.getElem?_asRead_value value hi hv
      have hdots := hinner i _ hread hlt
      rw [isDots, Bool.or_eq_false_iff] at hdots
      constructor
      · rintro rfl
        exact absurd hdots.1 (by decide)
      · rintro rfl
        exact absurd hdots.2 (by decide)
    · have hread := T.getElem?_asRead_value value hi hv
      have hdouble := (isDoubleDot_encoded v).mpr hdots
      have hone := hlast i _ hread heq hdouble
      simpa using hone
  · intro h
    -- whatever stands at an index, it is dots only as a value at the end
    have hdots (i : Nat) (segment : List Char) (hsegment : (T.asRead value)[i]? = some segment) :
        isDots segment = false ∨
          ∃ slash name v, T.segments[i]? = some (slash, .placeholder name) ∧ value name = some v ∧
            segment = Js.encodeURIComponent v := by
      have hi := (List.getElem?_eq_some_iff.mp hsegment).1
      rw [hlength] at hi
      obtain ⟨⟨slash, kind⟩, hkind⟩ : ∃ e, T.segments[i]? = some e :=
        ⟨_, List.getElem?_eq_getElem hi⟩
      cases kind with
      | literal text =>
        rw [T.getElem?_asRead_literal value hkind] at hsegment
        exact .inl (h.literal i slash text hkind segment hsegment)
      | placeholder name =>
        cases hv : value name with
        | none => exact .inl (T.isDots_unfilled value hkind hv hsegment)
        | some v =>
          rw [T.getElem?_asRead_value value hkind hv] at hsegment
          exact .inr ⟨slash, name, v, hkind, hv, (Option.some.inj hsegment).symm⟩
    have hkeeps : Kept [] (T.asRead value) := by
      refine (kept_iff hne).mpr ⟨fun i segment hsegment hlt => ?_,
        fun i segment hsegment heq hdouble => ?_⟩
      · rcases hdots i segment hsegment with hfalse | ⟨slash, name, v, hkind, hv, rfl⟩
        · exact hfalse
        · obtain ⟨hone, htwo⟩ := h.inner i slash name v hkind hv (by rwa [hlength] at hlt)
          rw [isDots, Bool.or_eq_false_iff, Bool.eq_false_iff, Bool.eq_false_iff]
          exact ⟨fun hdot => hone ((isSingleDot_encoded v).mp hdot),
            fun hdot => htwo ((isDoubleDot_encoded v).mp hdot)⟩
      · rcases hdots i segment hsegment with hfalse | ⟨slash, name, v, hkind, hv, rfl⟩
        · rw [isDots, Bool.or_eq_false_iff] at hfalse
          rw [hfalse.2] at hdouble
          cases hdouble
        · rw [hlength] at heq ⊢
          have hone := h.last i slash name v hkind hv heq ((isDoubleDot_encoded v).mp hdouble)
          simpa using hone
    refine ⟨_, hparse, rfl, (hkept.mpr hkeeps).trans hlength, fun i slash text hi => ?_, rfl, rfl⟩
    have hread := T.getElem?_asRead_literal value hi
    show (resolve [] (T.asRead value))[i]? = _
    rw [getElem?_resolve hkeeps, hread]
    cases hsegment : (T.asRead fun _ => none)[i]? with
    | none => rfl
    | some segment =>
      have hself := (ending_eq_self_iff segment).mpr (h.literal i slash text hi segment hsegment)
      rw [Option.map_some, hself, ite_self]

/-! ## Filling a template -/

structure Whole (T : Template) (names : List Char → Prop) : Prop where
  head : ∀ name, names name → ¬ braces name <:+: T.head
  tail : ∀ name, names name → ¬ braces name <:+: T.tail
  literal : ∀ slash text, (slash, Segment.literal text) ∈ T.segments →
    ∀ name, names name → ¬ braces name <:+: text
  placeholder : ∀ slash name, (slash, Segment.placeholder name) ∈ T.segments →
    '\x7b' ∉ name ∧ '\x7d' ∉ name

theorem Whole.mono {T : Template} {names names' : List Char → Prop} (h : T.Whole names)
    (hsub : ∀ name, names' name → names name) : T.Whole names' where
  head name hname := h.head name (hsub name hname)
  tail name hname := h.tail name (hsub name hname)
  literal slash text hmem name hname := h.literal slash text hmem name (hsub name hname)
  placeholder := h.placeholder

theorem map_fill {σ : List Char → List Char} {value value' : List Char → Option String}
    (hσ : ∀ a c b, isDelimiter c = true → σ (a ++ c :: b) = σ a ++ c :: σ b) (hnil : σ [] = [])
    (hhead : σ T.head = T.head) (htail : σ T.tail = T.tail)
    (hsegment : ∀ e ∈ T.segments, σ (e.2.fill value) = e.2.fill value') :
    σ (T.fill value) = T.fill value' := by
  have hlast (front : List Char) : σ (front ++ T.tail) = σ front ++ T.tail := by
    have hq := T.tail_head
    cases hT : T.tail with
    | nil => rw [append_nil, append_nil]
    | cons q tail =>
      rw [hT] at hq htail
      have hdelimiter : isDelimiter q = true := by
        have hq := hq q rfl
        rw [isQueryOrFragment, Bool.or_eq_true] at hq
        rw [isDelimiter, Bool.or_eq_true, Bool.or_eq_true]
        exact hq.elim (fun h => .inl (.inr h)) .inr
      have hparts := hσ [] q tail hdelimiter
      rw [nil_append, htail, hnil, nil_append] at hparts
      rw [hσ _ _ _ hdelimiter, ← (List.cons.inj hparts).2]
  have hjoined (segments : List (Char × Segment)) (hslash : ∀ e ∈ segments, isSlash e.1 = true)
      (hsegments : ∀ e ∈ segments, σ (e.2.fill value) = e.2.fill value') (front : List Char) :
      σ (front ++ (joined (segments.map fun e => (e.1, e.2.fill value)) ++ T.tail)) =
        σ front ++ (joined (segments.map fun e => (e.1, e.2.fill value')) ++ T.tail) := by
    induction segments generalizing front with
    | nil => exact hlast front
    | cons e rest ih =>
      have hdelimiter : isDelimiter e.1 = true := by
        rw [isDelimiter, hslash e mem_cons_self]
        rfl
      have hrest := ih (fun e he => hslash e (mem_cons_of_mem _ he))
        (fun e he => hsegments e (mem_cons_of_mem _ he)) (e.2.fill value)
      have hcons (w : List Char → Option String) :
          joined ((e :: rest).map fun e => (e.1, e.2.fill w)) ++ T.tail =
            e.1 :: (e.2.fill w ++ (joined (rest.map fun e => (e.1, e.2.fill w)) ++ T.tail)) := by
        simp [joined]
      rw [hcons, hcons, hσ _ _ _ hdelimiter, hrest, hsegments e mem_cons_self]
  have hall := hjoined T.segments T.slash hsegment T.head
  rw [hhead] at hall
  exact hall

end Template

end Almyty.Lib.Url
