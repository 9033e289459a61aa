import Almyty.Security.InputSanitizer

/-!
# Sanitizing parameters: `sanitizeToolParameters` in `input-sanitizer.ts`

The parameters are copied, and the copy is scanned: each string is checked against
`INJECTION_PATTERNS` under the path it stands at, and long strings and arrays come out cut.

Sanitizing what was sanitized changes nothing more. It can block, though: a string is checked whole
and comes out cut, and where the cut ends a word, `hasShellCommand` can find a command that the
whole string does not have. `sanitizing_stable_iff` says that this is the only way.
-/

namespace Almyty.Security

open Almyty.Lib List
open Almyty.Common (Text CodeUnit ascii isSpace)

inductive Arg (σ : Type)
  | scalar (value : σ)
  | text (value : Text)
  | arr (items : List (Arg σ))
  | obj (fields : List (Text × Arg σ))

/-! ## The patterns -/

/-- `/<!ENTITY\s/i`. -/
def xxeEntity : Regex CodeUnit := .sequence [letters "<!ENTITY", .unit isSpace]

/-- `/169\.254\.169\.254/i`. -/
def ssrfMetadata : Regex CodeUnit := letters "169.254.169.254"

/-- `[^`\n]*`. -/
def restOfCommand : Regex CodeUnit := .many true 0 fun c => c ≠ 96 && c ≠ 10

def BACKTICK_COMMAND : Regex CodeUnit :=
  .sequence [.text (ascii "`"), .many true 0 isSpace,
    .optional (.sequence [letters "sudo", .many true 1 isSpace]),
    .anyOf [
      .sequence [
        .anyOf (["whoami", "uname", "hostname", "pwd", "printenv", "ifconfig"].map letters),
        .many true 0 isSpace, .text (ascii "`")],
      .sequence [.anyOf (["whoami", "id", "uname", "hostname", "ls", "cat", "rm", "cp", "mv",
          "chmod", "chown", "curl", "wget", "nc", "netcat", "ncat", "bash", "sh", "zsh", "dash",
          "ksh", "python3", "python", "perl", "ruby", "php", "node", "nslookup", "dig", "ping",
          "base64", "sleep", "kill", "pkill", "ps", "env", "printenv", "echo", "eval",
          "exec"].map letters),
        .unit fun c => isSpace c || (ascii "|;&<>").contains c, restOfCommand, .text (ascii "`")],
      .sequence [
        .alt (.sequence [.text (ascii "/"), .optional (letters "usr/"),
            .anyOf (["bin", "sbin", "tmp", "dev", "etc"].map letters), .text (ascii "/")])
          (.text (ascii "./")),
        restOfCommand, .text (ascii "`")]]]

/-- The look-behind and the look-ahead of `..` in `PATH_TRAVERSAL`. -/
def standsAlone (value : Text) (i : Nat) (rest : Text) : Bool :=
  !((value.take i).getLast?.any fun c => c = 46 || isWordUnit c) &&
    rest.head?.any fun c => isWordUnit c || (ascii ".~%$-").contains c

/-- `PATH_TRAVERSAL` of `injection-shapes.ts`. -/
def pathTraversal (value : Text) : Bool :=
  (Regex.sequence [.text (ascii ".."),
      .alt (.text (ascii "/")) (.sequence [.text (ascii "\\"), .optional (.text (ascii "\\"))])]
    ).testWhere (standsAlone value) value ||
  (Regex.sequence [.text (ascii "...."), .unit (ascii "/\\").contains,
      .optional (.unit (ascii "/\\").contains)]).test value

/-- `(?:localhost|…|::1)(?::\d+)?(?:\s|$|\/)`, under `/i`. -/
def localHost : Regex CodeUnit :=
  .sequence [.anyOf (["localhost", "127.0.0.1", "0.0.0.0", "::1"].map letters),
    .optional (.sequence [.text (ascii ":"), .many true 1 fun c => 48 ≤ c && c ≤ 57]),
    .anyOf [.unit isSpace, .atEnd, .text (ascii "/")]]

/-- The same after `(?:^|\s)`. -/
def ssrfLocalhost (value : Text) : Bool :=
  localHost.testWhere (fun i _ => i = 0) value || (Regex.seq (.unit isSpace) localHost).test value

inductive Severity
  | block
  | warn
  deriving DecidableEq

def Severity.text : Severity → Text
  | .block => ascii "block"
  | .warn => ascii "warn"

structure InjectionPattern where
  name : Text
  test : Text → Bool
  severity : Severity
  /-- A check that a tool's executable inputs skip. -/
  command : Bool := false

section

variable (toLowerCase : Text → Text)

def INJECTION_PATTERNS : List InjectionPattern := [
  { name := ascii "shell-command", test := hasShellCommand, severity := .block, command := true },
  { name := ascii "backtick-exec", test := BACKTICK_COMMAND.test, severity := .warn,
    command := true },
  { name := ascii "xxe-entity", test := xxeEntity.test, severity := .block },
  { name := ascii "xxe-system", test := hasDoctypeSystem toLowerCase, severity := .block },
  { name := ascii "path-traversal", test := pathTraversal, severity := .warn },
  { name := ascii "ssrf-localhost", test := ssrfLocalhost, severity := .warn },
  { name := ascii "ssrf-metadata", test := ssrfMetadata.test, severity := .block },
  { name := ascii "template-injection",
    test := fun value => hasOnOneLine value (ascii "\x7b\x7b") (ascii "\x7d\x7d"),
    severity := .warn },
  { name := ascii "ssti", test := fun value => hasOnOneLine value (ascii "$\x7b") (ascii "\x7d"),
    severity := .warn }]

end

/-! ## Copying -/

/-- `object[key] = value`, where `__proto__` is the inherited setter and adds no entry. -/
def assignKey {α : Type} (fields : List (Text × α)) (key : Text) (value : α) : List (Text × α) :=
  if key = ascii "__proto__" ∧ key ∉ Assoc.keys fields then fields else Assoc.put fields key value

def assignKeys {α : Type} (entries : List (Text × α)) : List (Text × α) :=
  entries.foldl (fun out e => assignKey out e.1 e.2) []

mutual

def deepClone {σ : Type} : Arg σ → Arg σ
  | .scalar value => .scalar value
  | .text value => .text value
  | .arr items => .arr (cloneItems items)
  | .obj fields => .obj (assignKeys (cloneFields fields))

def cloneItems {σ : Type} : List (Arg σ) → List (Arg σ)
  | [] => []
  | item :: items => deepClone item :: cloneItems items

def cloneFields {σ : Type} : List (Text × Arg σ) → List (Text × Arg σ)
  | [] => []
  | (key, value) :: fields => (key, deepClone value) :: cloneFields fields

end

/-! ## Scanning -/

structure Scan (α : Type) where
  value : α
  warnings : List Text
  safe : Bool

/-- A number in a message. -/
def numeral (n : Nat) : Text := ascii (toString n)

def itemPath (path : Text) (i : Nat) : Text := path ++ ascii "[" ++ numeral i ++ ascii "]"

def keyPath (path key : Text) : Text := path ++ ascii "." ++ key

section

variable (toLowerCase : Text → Text) (executable : List Text)

def patternsIn (path value : Text) : List InjectionPattern :=
  (INJECTION_PATTERNS toLowerCase).filter fun pattern =>
    !(pattern.command && executable.contains path) && pattern.test value

def scanText (path value : Text) : Scan Text :=
  let hits := patternsIn toLowerCase executable path value
  let found := hits.map fun pattern =>
    ascii "[" ++ pattern.severity.text ++ ascii "] " ++ pattern.name ++
      ascii " pattern detected in " ++ path
  let safe := hits.all (·.severity ≠ .block)
  -- the checks are made on the whole string
  if 100000 < value.length then
    { value := value.take 100000, safe
      warnings := found ++ [ascii "[warn] Truncated oversized string in " ++ path ++ ascii " (" ++
        numeral value.length ++ ascii " chars)"] }
  else { value, warnings := found, safe }

mutual

def scanValue {σ : Type} (path : Text) : Arg σ → Scan (Arg σ)
  | .scalar value => { value := .scalar value, warnings := [], safe := true }
  | .text value =>
    let scan := scanText toLowerCase executable path value
    { value := .text scan.value, warnings := scan.warnings, safe := scan.safe }
  | .arr items =>
    let oversized :=
      if 10000 < items.length then
        [ascii "[warn] Truncated oversized array in " ++ path ++ ascii " (" ++
          numeral items.length ++ ascii " items)"]
      else []
    let scan := scanItems path 10000 0 items
    { value := .arr scan.value, warnings := oversized ++ scan.warnings, safe := scan.safe }
  | .obj fields =>
    if 1000 < fields.length then
      { value := .obj fields, safe := false
        warnings := [ascii "[warn] Object in " ++ path ++ ascii " has too many keys (" ++
          numeral fields.length ++ ascii ")"] }
    else
      let scan := scanFields path fields
      { value := .obj (assignKeys scan.value), warnings := scan.warnings, safe := scan.safe }

def scanItems {σ : Type} (path : Text) : Nat → Nat → List (Arg σ) → Scan (List (Arg σ))
  | 0, _, _ | _, _, [] => { value := [], warnings := [], safe := true }
  | left + 1, i, item :: items =>
    let first := scanValue (itemPath path i) item
    let rest := scanItems path left (i + 1) items
    { value := first.value :: rest.value, warnings := first.warnings ++ rest.warnings
      safe := first.safe && rest.safe }

def scanFields {σ : Type} (path : Text) : List (Text × Arg σ) → Scan (List (Text × Arg σ))
  | [] => { value := [], warnings := [], safe := true }
  | (key, value) :: fields =>
    let first := scanValue (keyPath path key) value
    let rest := scanFields path fields
    { value := (key, first.value) :: rest.value, warnings := first.warnings ++ rest.warnings
      safe := first.safe && rest.safe }

end

end

structure SanitizeOptions where
  strict : Bool := false
  executableInputs : List Text := []

structure SanitizationResult (σ : Type) where
  safe : Bool
  warnings : List Text
  sanitized : Arg σ

def SanitizeOptions.executable (options : SanitizeOptions) : List Text :=
  options.executableInputs.map fun key => ascii "params." ++ key

def sanitizeToolParameters {σ : Type} (toLowerCase : Text → Text) (parameters : Arg σ)
    (options : SanitizeOptions) : SanitizationResult σ :=
  let scan := scanValue toLowerCase options.executable (ascii "params") (deepClone parameters)
  { safe := if options.strict then scan.safe && scan.warnings.isEmpty else scan.safe
    warnings := scan.warnings
    sanitized := scan.value }

/-! ## What is blocked -/

section

variable {toLowerCase : Text → Text} {executable : List Text}

theorem scanText_safe_iff {path value : Text} :
    (scanText toLowerCase executable path value).safe = true ↔
      (executable.contains path = true ∨ hasShellCommand value = false) ∧
        xxeEntity.test value = false ∧ hasDoctypeSystem toLowerCase value = false ∧
        ssrfMetadata.test value = false := by
  have hsafe : (scanText toLowerCase executable path value).safe =
      (patternsIn toLowerCase executable path value).all (·.severity ≠ .block) := by
    unfold scanText
    split <;> rfl
  rw [hsafe, patternsIn, all_filter]
  simp only [INJECTION_PATTERNS, all_cons, all_nil]
  cases hcommand : executable.contains path <;> simp

theorem unanchored_letters (text : String) : (letters text).Unanchored := by
  refine Regex.unanchored_sequence fun r hr => ?_
  obtain ⟨x, -, rfl⟩ := mem_map.mp hr
  exact trivial

theorem not_test_of_prefix {r : Regex CodeUnit} (hr : r.Unanchored) {s t : Text} (hst : s <+: t)
    (h : r.test t = false) : r.test s = false := by
  rw [← Bool.not_eq_true] at h ⊢
  exact fun hs => h (Regex.test_of_prefix hr hst hs)

theorem scanText_safe_of_prefix (hlower : LowerCases toLowerCase) {path value front : Text}
    (hfront : front <+: value) (h : (scanText toLowerCase executable path value).safe = true) :
    (scanText toLowerCase executable path front).safe = true ↔
      (executable.contains path = true ∨ hasShellCommand front = false) := by
  obtain ⟨-, hentity, hdoctype, hmetadata⟩ := scanText_safe_iff.mp h
  rw [hasDoctypeSystem_agrees hlower] at hdoctype
  rw [scanText_safe_iff, hasDoctypeSystem_agrees hlower]
  refine and_iff_left ⟨?_, ?_, ?_⟩
  · exact not_test_of_prefix (r := xxeEntity) ⟨unanchored_letters _, trivial, trivial⟩ hfront
      hentity
  · exact not_test_of_prefix (r := doctypeSystem)
      ⟨unanchored_letters _, trivial, unanchored_letters _, trivial⟩ hfront hdoctype
  · exact not_test_of_prefix (unanchored_letters _) hfront hmetadata

theorem scanText_value (path value : Text) :
    (scanText toLowerCase executable path value).value = value.take 100000 := by
  unfold scanText
  split
  · rfl
  · rw [take_of_length_le (by omega)]

end

/-! ## Copies -/

theorem keys_assignKeys {α : Type} (entries : List (Text × α)) {out : List (Text × α)}
    (hnodup : (Assoc.keys out).Nodup)
    (hproto : ascii "__proto__" ∉ Assoc.keys out) :
    (Assoc.keys (entries.foldl (fun out e => assignKey out e.1 e.2) out)).Nodup ∧
      ascii "__proto__" ∉ Assoc.keys (entries.foldl (fun out e => assignKey out e.1 e.2) out) := by
  induction entries generalizing out with
  | nil => exact ⟨hnodup, hproto⟩
  | cons e entries ih =>
    rw [foldl_cons]
    by_cases hset : e.1 = ascii "__proto__" ∧ e.1 ∉ Assoc.keys out
    · rw [assignKey, if_pos hset]
      exact ih hnodup hproto
    · rw [assignKey, if_neg hset]
      refine ih (Assoc.put_keys_nodup hnodup _ _) ?_
      have hkey : e.1 ≠ ascii "__proto__" := fun heq =>
        hset ⟨heq, heq ▸ hproto⟩
      rw [← Assoc.lookup_eq_none_iff, Assoc.lookup_put, if_neg (Ne.symm hkey),
        Assoc.lookup_eq_none_iff]
      exact hproto

theorem assignKeys_self {α : Type} {entries : List (Text × α)} (out : List (Text × α))
    (hnodup : (Assoc.keys (out ++ entries)).Nodup)
    (hproto : ascii "__proto__" ∉ Assoc.keys entries) :
    entries.foldl (fun out e => assignKey out e.1 e.2) out = out ++ entries := by
  induction entries generalizing out with
  | nil => simp
  | cons e entries ih =>
    rw [Assoc.keys_cons, mem_cons, not_or] at hproto
    have hnew : e.1 ∉ Assoc.keys out := by
      rw [Assoc.keys, map_append, map_cons] at hnodup
      exact fun hmem => (nodup_append.mp hnodup).2.2 _ hmem _ mem_cons_self rfl
    have hassign : assignKey out e.1 e.2 = out ++ [e] := by
      rw [assignKey, if_neg fun hset => hproto.1 hset.1.symm, Assoc.put_of_not_mem hnew]
    rw [foldl_cons, hassign, ih _ (by rwa [append_assoc]) hproto.2, append_assoc]
    rfl

mutual

def Clean {σ : Type} : Arg σ → Prop
  | .scalar _ | .text _ => True
  | .arr items => CleanItems items
  | .obj fields =>
    (Assoc.keys fields).Nodup ∧ ascii "__proto__" ∉ Assoc.keys fields ∧ CleanFields fields

def CleanItems {σ : Type} : List (Arg σ) → Prop
  | [] => True
  | item :: items => Clean item ∧ CleanItems items

def CleanFields {σ : Type} : List (Text × Arg σ) → Prop
  | [] => True
  | (_, value) :: fields => Clean value ∧ CleanFields fields

end

section

variable {σ : Type}

theorem cleanFields_iff {fields : List (Text × Arg σ)} :
    CleanFields fields ↔ ∀ e ∈ fields, Clean e.2 := by
  induction fields with
  | nil => simp [CleanFields]
  | cons e fields ih => rw [CleanFields, ih, forall_mem_cons]

theorem assignKeys_self_of_clean {fields : List (Text × Arg σ)} (h : Clean (.obj fields))
    {entries : List (Text × Arg σ)} (hkeys : Assoc.keys entries = Assoc.keys fields) :
    assignKeys entries = entries := by
  rw [Clean] at h
  exact assignKeys_self [] (by rw [nil_append, hkeys]; exact h.1) (hkeys ▸ h.2.1)

theorem cleanFields_assignKeys {entries out : List (Text × Arg σ)} (hentries : CleanFields entries)
    (hout : CleanFields out) :
    CleanFields (entries.foldl (fun out e => assignKey out e.1 e.2) out) := by
  induction entries generalizing out with
  | nil => exact hout
  | cons e entries ih =>
    obtain ⟨he, hentries⟩ := hentries
    rw [foldl_cons]
    refine ih hentries ?_
    unfold assignKey
    split
    · exact hout
    · rw [cleanFields_iff] at hout ⊢
      intro e' he'
      rcases Assoc.mem_put he' with rfl | he'
      · exact he
      · exact hout e' he'

mutual

theorem clean_deepClone : (value : Arg σ) → Clean (deepClone value)
  | .scalar _ | .text _ => trivial
  | .arr items => clean_cloneItems items
  | .obj fields => by
    rw [deepClone, Clean]
    obtain ⟨hnodup, hproto⟩ := @keys_assignKeys _ (cloneFields fields) [] nodup_nil
      not_mem_nil
    exact ⟨hnodup, hproto, cleanFields_assignKeys (clean_cloneFields fields) trivial⟩

theorem clean_cloneItems : (items : List (Arg σ)) → CleanItems (cloneItems items)
  | [] => trivial
  | item :: items => ⟨clean_deepClone item, clean_cloneItems items⟩

theorem clean_cloneFields : (fields : List (Text × Arg σ)) → CleanFields (cloneFields fields)
  | [] => trivial
  | (_, value) :: fields => ⟨clean_deepClone value, clean_cloneFields fields⟩

end

mutual

theorem deepClone_of_clean : (value : Arg σ) → Clean value → deepClone value = value
  | .scalar _, _ | .text _, _ => rfl
  | .arr items, h => congrArg Arg.arr (cloneItems_of_clean items h)
  | .obj fields, h => by
    rw [deepClone, cloneFields_of_clean fields h.2.2, assignKeys_self_of_clean h rfl]

theorem cloneItems_of_clean : (items : List (Arg σ)) → CleanItems items → cloneItems items = items
  | [], _ => rfl
  | item :: items, h => by
    rw [cloneItems, deepClone_of_clean item h.1, cloneItems_of_clean items h.2]

theorem cloneFields_of_clean : (fields : List (Text × Arg σ)) → CleanFields fields →
    cloneFields fields = fields
  | [], _ => rfl
  | (key, value) :: fields, h => by
    rw [cloneFields, deepClone_of_clean value h.1, cloneFields_of_clean fields h.2]

end

end

/-! ## Sanitizing again -/

section

variable {σ : Type} (executable : List Text)

mutual

def CutsClean (path : Text) : Arg σ → Prop
  | .scalar _ => True
  | .text value =>
    executable.contains path = true ∨ value.length ≤ 100000 ∨
      hasShellCommand (value.take 100000) = false
  | .arr items => CutsCleanItems path 10000 0 items
  | .obj fields => CutsCleanFields path fields

def CutsCleanItems (path : Text) : Nat → Nat → List (Arg σ) → Prop
  | 0, _, _ | _, _, [] => True
  | left + 1, i, item :: items =>
    CutsClean (itemPath path i) item ∧ CutsCleanItems path left (i + 1) items

def CutsCleanFields (path : Text) : List (Text × Arg σ) → Prop
  | [] => True
  | (key, value) :: fields => CutsClean (keyPath path key) value ∧ CutsCleanFields path fields

end

end

section

variable {σ : Type} {toLowerCase : Text → Text} {executable : List Text}

theorem keys_scanFields (path : Text) (fields : List (Text × Arg σ)) :
    Assoc.keys (scanFields toLowerCase executable path fields).value = Assoc.keys fields := by
  induction fields with
  | nil => rw [scanFields]
  | cons e fields ih => rw [scanFields, Assoc.keys_cons, Assoc.keys_cons, ih]

mutual

theorem clean_scanValue (path : Text) : (value : Arg σ) → Clean value →
    Clean (scanValue toLowerCase executable path value).value
  | .scalar _, _ | .text _, _ => by rw [scanValue]; trivial
  | .arr items, h => by
    rw [scanValue]
    exact clean_scanItems path 10000 0 items h
  | .obj fields, h => by
    rw [scanValue]
    split
    · exact h
    · show Clean (.obj (assignKeys (scanFields toLowerCase executable path fields).value))
      rw [assignKeys_self_of_clean h (keys_scanFields path fields), Clean, keys_scanFields]
      exact ⟨h.1, h.2.1, clean_scanFields path fields h.2.2⟩

theorem clean_scanItems (path : Text) : (left i : Nat) → (items : List (Arg σ)) →
    CleanItems items → CleanItems (scanItems toLowerCase executable path left i items).value
  | 0, _, _, _ | _ + 1, _, [], _ => by simp [scanItems, CleanItems]
  | left + 1, i, item :: items, h => by
    rw [scanItems]
    exact ⟨clean_scanValue _ item h.1, clean_scanItems path left (i + 1) items h.2⟩

theorem clean_scanFields (path : Text) : (fields : List (Text × Arg σ)) → CleanFields fields →
    CleanFields (scanFields toLowerCase executable path fields).value
  | [], _ => by simp [scanFields, CleanFields]
  | (key, value) :: fields, h => by
    rw [scanFields]
    exact ⟨clean_scanValue _ value h.1, clean_scanFields path fields h.2⟩

end

/-- What a value comes out as comes out of a second scan as it is, and passes it if no cut makes a
command. -/
def Settles (scan again : Scan (Arg σ)) (cuts : Prop) : Prop :=
  again.value = scan.value ∧ (again.safe = true ↔ cuts)

theorem scanText_again (hlower : LowerCases toLowerCase) {path value : Text}
    (hsafe : (scanText toLowerCase executable path value).safe = true) :
    let out := (scanText toLowerCase executable path value).value
    (scanText toLowerCase executable path out).value = out ∧
      ((scanText toLowerCase executable path out).safe = true ↔
        executable.contains path = true ∨ value.length ≤ 100000 ∨
          hasShellCommand (value.take 100000) = false) := by
  have hprefix := scanText_safe_of_prefix hlower (List.take_prefix 100000 value) hsafe
  intro out
  have hout : out = value.take 100000 := scanText_value path value
  rw [hout]
  refine ⟨?_, hprefix.trans ?_⟩
  · rw [scanText_value, take_take, Nat.min_self]
  · -- a string that is not cut was checked
    by_cases hlen : value.length ≤ 100000
    · rw [take_of_length_le hlen]
      have hchecked := (scanText_safe_iff.mp hsafe).1
      exact iff_of_true hchecked (.inr (.inl hlen))
    · rw [or_iff_right hlen]

mutual

theorem scanValue_again (hlower : LowerCases toLowerCase) (path : Text) : (value : Arg σ) →
    Clean value → (scanValue toLowerCase executable path value).safe = true →
    Settles (scanValue toLowerCase executable path value)
      (scanValue toLowerCase executable path (scanValue toLowerCase executable path value).value)
      (CutsClean executable path value)
  | .scalar _, _, _ => by
    simp [Settles, scanValue, CutsClean]
  | .text value, _, hsafe => by
    rw [scanValue] at hsafe
    obtain ⟨hvalue, hagain⟩ := scanText_again hlower hsafe
    rw [Settles, scanValue, scanValue, CutsClean]
    exact ⟨congrArg Arg.text hvalue, hagain⟩
  | .arr items, hclean, hsafe => by
    rw [scanValue] at hsafe
    obtain ⟨hvalue, hagain⟩ := scanItems_again hlower path 10000 0 items hclean hsafe
    rw [Settles, scanValue, scanValue, CutsClean]
    exact ⟨congrArg Arg.arr hvalue, hagain⟩
  | .obj fields, hclean, hsafe => by
    rw [scanValue] at hsafe
    by_cases hmany : 1000 < fields.length
    · rw [if_pos hmany] at hsafe
      cases hsafe
    · rw [if_neg hmany] at hsafe
      obtain ⟨hvalue, hagain⟩ := scanFields_again hlower path fields hclean.2.2 hsafe
      have hkeys := @keys_scanFields _ toLowerCase executable path fields
      have hassigned := assignKeys_self_of_clean hclean hkeys
      have hlen : (scanFields toLowerCase executable path fields).value.length = fields.length := by
        have hlen := congrArg List.length hkeys
        rwa [Assoc.keys, Assoc.keys, length_map, length_map] at hlen
      rw [Settles, scanValue, if_neg hmany, CutsClean]
      dsimp only
      rw [hassigned, scanValue, hlen, if_neg hmany]
      refine ⟨?_, hagain⟩
      dsimp only
      rw [hvalue, hassigned]

theorem scanItems_again (hlower : LowerCases toLowerCase) (path : Text) : (left i : Nat) →
    (items : List (Arg σ)) → CleanItems items →
    (scanItems toLowerCase executable path left i items).safe = true →
    (scanItems toLowerCase executable path left i
        (scanItems toLowerCase executable path left i items).value).value =
      (scanItems toLowerCase executable path left i items).value ∧
    ((scanItems toLowerCase executable path left i
        (scanItems toLowerCase executable path left i items).value).safe = true ↔
      CutsCleanItems executable path left i items)
  | 0, _, _, _, _ | _ + 1, _, [], _, _ => by simp [scanItems, CutsCleanItems]
  | left + 1, i, item :: items, hclean, hsafe => by
    rw [scanItems, Bool.and_eq_true] at hsafe
    obtain ⟨hvalue, hagain⟩ := scanValue_again hlower (itemPath path i) item hclean.1 hsafe.1
    obtain ⟨hvalues, hagains⟩ := scanItems_again hlower path left (i + 1) items hclean.2 hsafe.2
    rw [scanItems, scanItems, CutsCleanItems, Bool.and_eq_true, hagain, hagains, hvalue, hvalues]
    exact ⟨rfl, Iff.rfl⟩

theorem scanFields_again (hlower : LowerCases toLowerCase) (path : Text) :
    (fields : List (Text × Arg σ)) → CleanFields fields →
    (scanFields toLowerCase executable path fields).safe = true →
    (scanFields toLowerCase executable path
        (scanFields toLowerCase executable path fields).value).value =
      (scanFields toLowerCase executable path fields).value ∧
    ((scanFields toLowerCase executable path
        (scanFields toLowerCase executable path fields).value).safe = true ↔
      CutsCleanFields executable path fields)
  | [], _, _ => by simp [scanFields, CutsCleanFields]
  | (key, value) :: fields, hclean, hsafe => by
    rw [scanFields, Bool.and_eq_true] at hsafe
    obtain ⟨hvalue, hagain⟩ := scanValue_again hlower (keyPath path key) value hclean.1 hsafe.1
    obtain ⟨hvalues, hagains⟩ := scanFields_again hlower path fields hclean.2 hsafe.2
    rw [scanFields, scanFields, CutsCleanFields, Bool.and_eq_true, hagain, hagains, hvalue, hvalues]
    exact ⟨rfl, Iff.rfl⟩

end

/-! ## Without a warning -/

theorem scanText_quiet {path value : Text}
    (h : (scanText toLowerCase executable path value).warnings = []) : value.length ≤ 100000 := by
  unfold scanText at h
  split at h
  next => simp at h
  next hlen => exact Nat.not_lt.mp hlen

mutual

theorem scanValue_quiet (path : Text) : (value : Arg σ) → Clean value →
    (scanValue toLowerCase executable path value).warnings = [] →
    (scanValue toLowerCase executable path value).value = value ∧ CutsClean executable path value
  | .scalar _, _, _ => by simp [scanValue, CutsClean]
  | .text value, _, h => by
    rw [scanValue] at h
    have hlen := scanText_quiet h
    rw [scanValue, CutsClean]
    refine ⟨congrArg Arg.text ?_, .inr (.inl hlen)⟩
    rw [scanText_value, take_of_length_le hlen]
  | .arr items, hclean, h => by
    rw [scanValue] at h
    obtain ⟨hoversized, hitems⟩ := append_eq_nil_iff.mp h
    have hlen : items.length ≤ 10000 := by
      by_contra hnot
      rw [if_pos (Nat.not_le.mp hnot)] at hoversized
      cases hoversized
    obtain ⟨hvalue, hcuts⟩ := scanItems_quiet path 10000 0 items hlen hclean hitems
    rw [scanValue, CutsClean]
    exact ⟨congrArg Arg.arr hvalue, hcuts⟩
  | .obj fields, hclean, h => by
    rw [scanValue] at h ⊢
    by_cases hmany : 1000 < fields.length
    · rw [if_pos hmany] at h
      cases h
    · rw [if_neg hmany] at h ⊢
      obtain ⟨hvalue, hcuts⟩ := scanFields_quiet path fields hclean.2.2 h
      rw [CutsClean]
      refine ⟨congrArg Arg.obj ?_, hcuts⟩
      rw [hvalue, assignKeys_self_of_clean hclean rfl]

theorem scanItems_quiet (path : Text) : (left i : Nat) → (items : List (Arg σ)) →
    items.length ≤ left → CleanItems items →
    (scanItems toLowerCase executable path left i items).warnings = [] →
    (scanItems toLowerCase executable path left i items).value = items ∧
      CutsCleanItems executable path left i items
  | 0, _, [], _, _, _ | _ + 1, _, [], _, _, _ => by simp [scanItems, CutsCleanItems]
  | 0, _, _ :: _, hlen, _, _ => by simp at hlen
  | left + 1, i, item :: items, hlen, hclean, h => by
    rw [scanItems] at h
    obtain ⟨hfirst, hrest⟩ := append_eq_nil_iff.mp h
    obtain ⟨hvalue, hcuts⟩ := scanValue_quiet (itemPath path i) item hclean.1 hfirst
    obtain ⟨hvalues, hcutss⟩ := scanItems_quiet path left (i + 1) items
      (Nat.le_of_succ_le_succ hlen) hclean.2 hrest
    rw [scanItems, CutsCleanItems]
    exact ⟨congrArg₂ _ hvalue hvalues, hcuts, hcutss⟩

theorem scanFields_quiet (path : Text) : (fields : List (Text × Arg σ)) → CleanFields fields →
    (scanFields toLowerCase executable path fields).warnings = [] →
    (scanFields toLowerCase executable path fields).value = fields ∧
      CutsCleanFields executable path fields
  | [], _, _ => by simp [scanFields, CutsCleanFields]
  | (key, value) :: fields, hclean, h => by
    rw [scanFields] at h
    obtain ⟨hfirst, hrest⟩ := append_eq_nil_iff.mp h
    obtain ⟨hvalue, hcuts⟩ := scanValue_quiet (keyPath path key) value hclean.1 hfirst
    obtain ⟨hvalues, hcutss⟩ := scanFields_quiet path fields hclean.2 hrest
    rw [scanFields, CutsCleanFields]
    refine ⟨?_, hcuts, hcutss⟩
    rw [hvalue, hvalues]

end

end

/-- **What was sanitized and found safe is so again**, unless a string was cut to one that a command
is found in. -/
theorem sanitizing_stable_iff {σ : Type} {toLowerCase : Text → Text}
    (hlower : LowerCases toLowerCase) (parameters : Arg σ) (options : SanitizeOptions)
    (hsafe : (sanitizeToolParameters toLowerCase parameters options).safe = true) :
    let sanitized := (sanitizeToolParameters toLowerCase parameters options).sanitized
    let again := sanitizeToolParameters toLowerCase sanitized options
    (again.safe = true ∧ again.sanitized = sanitized) ↔
      CutsClean options.executable (ascii "params") (deepClone parameters) := by
  have hclean := clean_deepClone parameters
  have hout := @clean_scanValue _ toLowerCase options.executable (ascii "params") _ hclean
  intro sanitized again
  have hcopy : deepClone sanitized = sanitized := deepClone_of_clean _ hout
  have hagain : again.sanitized =
      (scanValue toLowerCase options.executable (ascii "params") sanitized).value := by
    show (scanValue _ _ _ (deepClone sanitized)).value = _
    rw [hcopy]
  cases hstrict : options.strict with
  | false =>
    have hscan : (scanValue toLowerCase options.executable (ascii "params")
        (deepClone parameters)).safe = true := by
      simpa [sanitizeToolParameters, hstrict] using hsafe
    obtain ⟨hvalue, hcuts⟩ := scanValue_again hlower (ascii "params") _ hclean hscan
    have hsafe' : again.safe =
        (scanValue toLowerCase options.executable (ascii "params") sanitized).safe := by
      simp [again, sanitizeToolParameters, hstrict, hcopy]
    rw [hsafe', hagain]
    exact (and_iff_left hvalue).trans hcuts
  | true =>
    -- no warning, so nothing was cut
    rw [sanitizeToolParameters, hstrict, if_pos rfl, Bool.and_eq_true, List.isEmpty_iff] at hsafe
    obtain ⟨hvalue, hcuts⟩ := scanValue_quiet (ascii "params") _ hclean hsafe.2
    have hsame : sanitized = deepClone parameters := hvalue
    refine iff_of_true ⟨?_, ?_⟩ hcuts
    · show (if options.strict then _ else _) = true
      rw [hstrict, if_pos rfl, hcopy, hsame, hsafe.1, hsafe.2]
      rfl
    · rw [hagain, hsame]
      exact hvalue

def query (value : Text) : Arg Unit := .obj [(ascii "q", .text value)]

theorem sanitizing_stable_query :
    let parameters := query (ascii "rm; x")
    let sanitized := (sanitizeToolParameters (fun s => s.map foldCase) parameters {}).sanitized
    let again := sanitizeToolParameters (fun s => s.map foldCase) sanitized {}
    again.safe = true ∧ again.sanitized = sanitized :=
  (sanitizing_stable_iff lowerCases_map (query (ascii "rm; x")) {} (by decide)).mpr
    ⟨.inr (.inl (by decide)), trivial⟩

/-! ## A cut that makes a command -/

/-- Three units and so many more, that end in `rm`. -/
def endsInCommand (n : Nat) : Text := 59 :: (List.replicate n 97 ++ ascii "rm")

theorem mem_of_mem_tail {n : Nat} {c : CodeUnit}
    (h : c ∈ List.replicate n 97 ++ ascii "rm" ++ ascii "x") : c ∈ ascii "armx" := by
  rcases mem_append.mp h with h | h
  · rcases mem_append.mp h with h | h
    · obtain rfl := eq_of_mem_replicate h
      decide
    · exact Js.forall_mem_of_all (by decide : (ascii "rm").all (· ∈ ascii "armx") = true) c h
  · exact Js.forall_mem_of_all (by decide : (ascii "x").all (· ∈ ascii "armx") = true) c h

theorem hasShellCommand_cut (n : Nat) : hasShellCommand (endsInCommand n) = true := by
  rw [hasShellCommand_agrees, shellCommand_iff]
  refine ⟨[], 59, List.replicate n 97, ascii "rm", [], ?_, by decide, ?_, ?_, rfl⟩
  · simp [endsInCommand]
  · intro c hc
    obtain rfl := eq_of_mem_replicate hc
    decide
  · exact ⟨"rm", by decide, rfl⟩

theorem hasShellCommand_uncut (n : Nat) :
    hasShellCommand (endsInCommand n ++ ascii "x") = false := by
  rw [← Bool.not_eq_true, hasShellCommand_agrees, shellCommand_iff]
  rintro ⟨before, at', body, word, rest, heq, -, -, ⟨name, hname, hword⟩, hrest⟩
  cases rest with
  | nil =>
    have hlast : ∀ name ∈ SHELL_COMMANDS,
        ((ascii name).map foldCase).getLast?.any (· ≠ 120) = true := by decide
    have hends := hlast name hname
    rw [← hword] at hends
    rcases eq_nil_or_concat' word with rfl | ⟨front, c, rfl⟩
    · cases hends
    · have hc : c = 120 := by
        have hlast := congrArg List.getLast? heq
        rw [show ascii "x" = [120] from rfl, List.getLast?_concat, append_nil,
          ← append_assoc, ← append_assoc, List.getLast?_concat] at hlast
        exact (Option.some.inj hlast).symm
      subst hc
      rw [map_append, map_singleton, List.getLast?_concat] at hends
      exact absurd hends (by decide)
  | cons c rest =>
    have hmem : c ∈ List.replicate n 97 ++ ascii "rm" ++ ascii "x" := by
      cases before with
      | nil =>
        have htail : List.replicate n 97 ++ ascii "rm" ++ ascii "x" = body ++ word ++ c :: rest :=
          (cons_eq_cons.mp heq).2
        rw [htail]
        simp
      | cons d before =>
        have htail : List.replicate n 97 ++ ascii "rm" ++ ascii "x" =
            before ++ (at' :: body ++ word) ++ c :: rest := (cons_eq_cons.mp heq).2
        rw [htail]
        simp
    have hc : isWordUnit c = false := hrest
    have hword : (ascii "armx").all isWordUnit = true := by decide
    rw [all_eq_true.mp hword c (mem_of_mem_tail hmem)] at hc
    cases hc

theorem not_test_of_absent {r : Regex CodeUnit} {x : CodeUnit} {value : Text}
    (hr : ∀ s rest, r.Leaves s rest → ∃ c s', s = c :: s' ∧ foldCase c = x)
    (habsent : ∀ c ∈ value, foldCase c ≠ x) : r.test value = false := by
  rw [← Bool.not_eq_true, Regex.test_iff]
  rintro ⟨before, after, rest, rfl, hleaves⟩
  obtain ⟨c, s', rfl, hc⟩ := hr _ _ hleaves
  exact habsent c (by simp) hc

theorem leaves_letters_head {text : String} {x : CodeUnit} {xs s rest : Text}
    (htext : ascii text = x :: xs) (h : (letters text).Leaves s rest) :
    ∃ c s', s = c :: s' ∧ foldCase c = foldCase x := by
  obtain ⟨word, rfl, hword⟩ := (leaves_letters text s rest).mp h
  rw [htext] at hword
  cases word with
  | nil => cases hword
  | cons c word => exact ⟨c, word ++ rest, rfl, (cons_eq_cons.mp hword).1⟩

theorem scanText_safe_uncut (path : Text) (n : Nat) :
    (scanText (fun s => s.map foldCase) [] path (endsInCommand n ++ ascii "x")).safe = true := by
  have hunits : ∀ c ∈ endsInCommand n ++ ascii "x", foldCase c ≠ 60 ∧ foldCase c ≠ 49 := by
    intro c hc
    rcases mem_cons.mp hc with rfl | hc
    · decide
    · have hall : (ascii "armx").all (fun c => foldCase c ≠ 60 ∧ foldCase c ≠ 49) = true := by
        decide
      exact Js.forall_mem_of_all hall c (mem_of_mem_tail hc)
  rw [scanText_safe_iff, hasDoctypeSystem_agrees lowerCases_map]
  refine ⟨.inr (hasShellCommand_uncut n), ?_, ?_, ?_⟩
  · refine not_test_of_absent (x := 60) ?_ fun c hc => (hunits c hc).1
    rintro s rest ⟨s', hleaves, -⟩
    exact leaves_letters_head rfl hleaves
  · refine not_test_of_absent (x := 60) ?_ fun c hc => (hunits c hc).1
    rintro s rest ⟨s', hleaves, -⟩
    exact leaves_letters_head rfl hleaves
  · refine not_test_of_absent (x := 49) ?_ fun c hc => (hunits c hc).2
    intro s rest hleaves
    exact leaves_letters_head (x := 49) rfl hleaves

theorem sanitize_query (toLowerCase : Text → Text) (value : Text) :
    let result := sanitizeToolParameters toLowerCase (query value) {}
    result.safe = (scanText toLowerCase [] (keyPath (ascii "params") (ascii "q")) value).safe ∧
      result.sanitized = query (value.take 100000) := by
  rw [← @scanText_value toLowerCase [] (keyPath (ascii "params") (ascii "q"))]
  exact ⟨Bool.and_true _, rfl⟩

/-- One string of a hundred thousand and one units is safe, and what comes out is not. -/
theorem cut_makes_a_command :
    let first := sanitizeToolParameters (fun s => s.map foldCase)
      (query (endsInCommand 99997 ++ ascii "x")) {}
    first.safe = true ∧
      (sanitizeToolParameters (fun s => s.map foldCase) first.sanitized {}).safe = false := by
  have hlen : (endsInCommand 99997).length = 100000 := by
    rw [endsInCommand, length_cons, length_append, length_replicate]
    rfl
  intro first
  obtain ⟨hsafe, hout⟩ := sanitize_query (fun s => s.map foldCase)
    (endsInCommand 99997 ++ ascii "x")
  refine ⟨hsafe.trans (scanText_safe_uncut _ _), ?_⟩
  rw [show first.sanitized = _ from hout, take_left' hlen,
    (sanitize_query _ _).1, ← Bool.not_eq_true, scanText_safe_iff]
  rintro ⟨h, -⟩
  rw [hasShellCommand_cut] at h
  exact absurd h (by decide)

end Almyty.Security
