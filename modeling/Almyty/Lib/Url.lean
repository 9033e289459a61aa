import Almyty.Lib.JsText

/-!
# Reading a URL

What the URL standard's parser makes of an `http` or `https` URL: the text is cleaned of the spaces
around it and of the line ends in it, the authority runs to the first slash, `?` or `#`, and the
path is split at its slashes, in both directions. A segment that is a dot, written out or as `%2e`,
is taken out, and two dots take the segment before them out too; at the end of a path they leave an
empty segment. So a path keeps the number of its segments only when no segment but the last is one
of dots (`length_resolve_iff`), and then it keeps them all (`resolve_of_kept`).
-/

namespace Almyty.Lib.Url

/-! ## The parser -/

def isControl (c : Char) : Bool := c.toNat ≤ 0x20

def isBreak (c : Char) : Bool := c = '\t' || c = '\n' || c = '\r'

def isSlash (c : Char) : Bool := c = '/' || c = '\\'

/-- What ends an authority. -/
def isDelimiter (c : Char) : Bool := isSlash c || c = '?' || c = '#'

def clean (text : List Char) : List Char :=
  ((text.dropWhile isControl).rdropWhile isControl).filter (!isBreak ·)

def percentByte (byte : UInt8) : List Char :=
  '%' :: [(byte.toNat / 16).digitChar.toUpper, (byte.toNat % 16).digitChar.toUpper]

def percentEncode (set : Char → Bool) (text : List Char) : List Char :=
  text.flatMap fun c =>
    if set c then (String.utf8EncodeChar c).flatMap percentByte else [c]

def controlSet (c : Char) : Bool := c.toNat ≤ 0x1f || 0x7e < c.toNat

def fragmentSet (c : Char) : Bool := controlSet c || [' ', '"', '<', '>', '\x60'].contains c

def querySet (c : Char) : Bool := controlSet c || [' ', '"', '#', '<', '>', '\''].contains c

def pathSet (c : Char) : Bool :=
  controlSet c || [' ', '"', '#', '<', '>', '?', '^', '\x60', '\x7b', '\x7d'].contains c

def undot : List Char → List Char
  | '%' :: '2' :: e :: rest =>
    if e = 'e' ∨ e = 'E' then '.' :: undot rest else '%' :: undot ('2' :: e :: rest)
  | c :: rest => c :: undot rest
  | [] => []

def isSingleDot (segment : List Char) : Bool := undot segment = ['.']

def isDoubleDot (segment : List Char) : Bool := undot segment = ['.', '.']

def isDots (segment : List Char) : Bool := isSingleDot segment || isDoubleDot segment

def ending (segment : List Char) : List Char := if isDots segment then [] else segment

def resolve (path : List (List Char)) : List (List Char) → List (List Char)
  | [] => path
  | [last] => (if isDoubleDot last then path.dropLast else path) ++ [ending last]
  | segment :: next :: rest =>
    if isDoubleDot segment then resolve path.dropLast (next :: rest)
    else if isSingleDot segment then resolve path (next :: rest)
    else resolve (path ++ [segment]) (next :: rest)

def splitSlashes : List Char → List (List Char)
  | [] => [[]]
  | c :: t =>
    if isSlash c then [] :: splitSlashes t
    else
      match splitSlashes t with
      | [] => [[c]]
      | segment :: rest => (c :: segment) :: rest

def readPath (text : List Char) : List (List Char) :=
  let path := text.takeWhile fun c => c ≠ '?' && c ≠ '#'
  let path := if (path.head?).any isSlash then path.tail else path
  resolve [] ((splitSlashes path).map (percentEncode pathSet))

def readQuery (text : List Char) : Option (List Char) :=
  match text.dropWhile fun c => c ≠ '?' && c ≠ '#' with
  | '?' :: query => some (percentEncode querySet (query.takeWhile (· ≠ '#')))
  | _ => none

def readFragment (text : List Char) : Option (List Char) :=
  match text.dropWhile (· ≠ '#') with
  | '#' :: fragment => some (percentEncode fragmentSet fragment)
  | _ => none

end Url

structure Url (Origin : Type) where
  origin : Origin
  path : List (List Char)
  query : Option (List Char)
  fragment : Option (List Char)

namespace Url

variable {Origin : Type}

def isSchemeChar (c : Char) : Bool := c.isAlphanum || ['+', '-', '.'].contains c

def splitScheme (text : List Char) : Option (List Char × List Char) :=
  match text.dropWhile isSchemeChar with
  | ':' :: rest => some ((text.takeWhile isSchemeChar).map Char.toLower, rest)
  | _ => none

def isWebScheme (scheme : List Char) : Bool :=
  scheme = "http".toList || scheme = "https".toList

/-- `new URL(text)`, for a request; `none` when it throws. -/
def parse (readOrigin : List Char → List Char → Option Origin) (input : List Char) :
    Option (Url Origin) :=
  match splitScheme (clean input) with
  | none => none
  | some (scheme, rest) =>
    if isWebScheme scheme then
      let rest := rest.dropWhile isSlash
      (readOrigin scheme (rest.takeWhile (!isDelimiter ·))).map fun origin =>
        let rest := rest.dropWhile (!isDelimiter ·)
        { origin, path := readPath rest, query := readQuery rest, fragment := readFragment rest }
    else none

/-! ## Dots -/

def Kept (path : List (List Char)) : List (List Char) → Prop
  | [] => True
  | [last] => isDoubleDot last = true → path = []
  | segment :: next :: rest => isDots segment = false ∧ Kept (path ++ [segment]) (next :: rest)

theorem length_resolve_le (path segments : List (List Char)) :
    (resolve path segments).length ≤ path.length + segments.length := by
  induction segments generalizing path with
  | nil => simp [resolve]
  | cons segment rest ih =>
    cases rest with
    | nil =>
      rw [resolve]
      split <;> simp
    | cons next rest =>
      rw [resolve]
      split
      · have := ih path.dropLast
        simp only [List.length_dropLast, List.length_cons] at this ⊢
        omega
      · split
        · have := ih path
          simp only [List.length_cons] at this ⊢
          omega
        · have := ih (path ++ [segment])
          simp only [List.length_append, List.length_cons, List.length_nil] at this ⊢
          omega

theorem length_resolve_iff (path segments : List (List Char)) :
    (resolve path segments).length = path.length + segments.length ↔ Kept path segments := by
  induction segments generalizing path with
  | nil => simp [resolve, Kept]
  | cons segment rest ih =>
    cases rest with
    | nil =>
      rw [resolve, Kept]
      by_cases hdouble : isDoubleDot segment = true
      · rw [if_pos hdouble]
        cases path with
        | nil => simp
        | cons first path => simp [hdouble]
      · rw [if_neg hdouble]
        simp [hdouble]
    | cons next rest =>
      rw [resolve, Kept]
      split
      · next hdouble =>
        have hle := length_resolve_le path.dropLast (next :: rest)
        simp only [List.length_dropLast, List.length_cons] at hle ⊢
        have hdots : isDots segment = true := by simp [isDots, hdouble]
        simp only [hdots, Bool.true_eq_false, false_and, iff_false]
        omega
      · next hdouble =>
        split
        · next hsingle =>
          have hle := length_resolve_le path (next :: rest)
          simp only [List.length_cons] at hle ⊢
          have hdots : isDots segment = true := by simp [isDots, hsingle]
          simp only [hdots, Bool.true_eq_false, false_and, iff_false]
          omega
        · next hsingle =>
          have hdots : isDots segment = false := by simp [isDots, hdouble, hsingle]
          have hstep := ih (path ++ [segment])
          simp only [List.length_append, List.length_cons, List.length_nil] at hstep ⊢
          rw [hdots, ← hstep]
          simp only [true_and]
          omega

theorem resolve_of_kept {path segments : List (List Char)} (h : Kept path segments)
    (hne : segments ≠ []) :
    resolve path segments = path ++ segments.dropLast ++ [ending (segments.getLast hne)] := by
  induction segments generalizing path with
  | nil => exact absurd rfl hne
  | cons segment rest ih =>
    cases rest with
    | nil =>
      rw [Kept] at h
      rw [resolve]
      split
      · next hdouble => simp [h hdouble]
      · simp
    | cons next rest =>
      rw [Kept] at h
      obtain ⟨hdots, hrest⟩ := h
      have hparts : isDoubleDot segment = false ∧ isSingleDot segment = false := by
        rw [isDots, Bool.or_eq_false_iff] at hdots
        exact ⟨hdots.2, hdots.1⟩
      rw [resolve, hparts.1, hparts.2, if_neg Bool.false_ne_true, if_neg Bool.false_ne_true,
        ih hrest (List.cons_ne_nil _ _)]
      simp

theorem kept_iff {path segments : List (List Char)} (hne : segments ≠ []) :
    Kept path segments ↔
      (∀ (i : Nat) segment, segments[i]? = some segment → i + 1 < segments.length →
        isDots segment = false) ∧
      (∀ (i : Nat) segment, segments[i]? = some segment → i + 1 = segments.length →
        isDoubleDot segment = true → path.length + segments.length = 1) := by
  induction segments generalizing path with
  | nil => exact absurd rfl hne
  | cons segment rest ih =>
    cases rest with
    | nil =>
      rw [Kept]
      constructor
      · intro h
        refine ⟨fun i s hs hi => ?_, fun i s hs hi hdouble => ?_⟩
        · simp only [List.length_singleton] at hi
          omega
        · obtain rfl : i = 0 := by simpa using hi
          obtain rfl : segment = s := by simpa using hs
          rw [h hdouble]
          rfl
      · rintro ⟨-, hlast⟩ hdouble
        have hone := hlast 0 segment rfl rfl hdouble
        simpa using hone
    | cons next rest =>
      rw [Kept, ih (List.cons_ne_nil _ _)]
      simp only [List.length_append, List.length_cons, List.length_nil]
      constructor
      · rintro ⟨hfirst, hinner, hlast⟩
        refine ⟨fun i s hs hi => ?_, fun i s hs hi hdouble => ?_⟩
        · cases i with
          | zero =>
            obtain rfl : segment = s := by simpa using hs
            exact hfirst
          | succ i => exact hinner i s (by simpa using hs) (by omega)
        · cases i with
          | zero => omega
          | succ i =>
            have hone := hlast i s (by simpa using hs) (by omega) hdouble
            omega
      · rintro ⟨hinner, hlast⟩
        refine ⟨hinner 0 segment rfl (by omega), fun i s hs hi => ?_, fun i s hs hi hdouble => ?_⟩
        · exact hinner (i + 1) s (by simpa using hs) (by omega)
        · have hone := hlast (i + 1) s (by simpa using hs) (by omega) hdouble
          omega

theorem getElem?_resolve {segments : List (List Char)} (h : Kept [] segments) (i : Nat) :
    (resolve [] segments)[i]? =
      segments[i]?.map fun s => if i + 1 = segments.length then ending s else s := by
  rcases List.eq_nil_or_concat segments with rfl | ⟨init, last, heq⟩
  · rfl
  · rw [List.concat_eq_append] at heq
    subst heq
    have hresolve := resolve_of_kept h (by simp)
    rw [List.nil_append, List.dropLast_concat, List.getLast_concat] at hresolve
    rw [hresolve, List.length_append, List.length_singleton]
    rcases Nat.lt_trichotomy i init.length with hlt | rfl | hgt
    · have hne : ¬ i + 1 = init.length + 1 := by omega
      rw [List.getElem?_append_left hlt, List.getElem?_append_left hlt, List.getElem?_eq_getElem hlt,
        Option.map_some, if_neg hne]
    · simp
    · rw [List.getElem?_eq_none (by simp; omega), List.getElem?_eq_none (by simp; omega)]
      rfl

theorem ending_eq_self_iff (segment : List Char) : ending segment = segment ↔ isDots segment = false := by
  constructor
  · intro h
    rw [Bool.eq_false_iff]
    intro hdots
    rw [ending, if_pos hdots] at h
    rw [← h] at hdots
    exact absurd hdots (by decide)
  · intro h
    rw [ending, h, if_neg Bool.false_ne_true]

end Almyty.Lib.Url
