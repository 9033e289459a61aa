import Almyty.Lib.UrlTemplate
import Almyty.Tools.RestRequest

/-!
# Path parameters: URL construction in `executors/tool-http.executor.ts`

`executeHttpConfig` writes parameters into the placeholders `{name}` of a configured path, and
`executeRestOperation` the path parameters of a call into those of an operation's endpoint, both as
`encodeURIComponent` writes them. `path_parameters_inside` says which requests stay inside the
template, once the URL is parsed: those in which no value is one of dots, which are written as they
are and taken out by the parser with the segment before them.

Mirroring notes:
- The placeholders of a template are whole segments; a name that is a placeholder's occurs in braces
  nowhere else.
-/

namespace Almyty.Tools

open Almyty.Lib List
open Almyty.Lib.Url (Template Segment braces)

/-! ## The configured path -/

def configUrl (baseUrl : Option String) (path : String) : List Char :=
  match baseUrl with
  | some baseUrl =>
    if baseUrl ≠ "" ∧ ¬ "http".toList <+: path.toList then
      (baseUrl.toList.reverse.dropWhile (· = '/')).reverse ++
        '/' :: path.toList.dropWhile (· = '/')
    else path.toList
  | none => path.toList

/-- `\w`. -/
def isWordChar (c : Char) : Bool := c.isAlphanum || c = '_'

/-- `url.replace(/\{(\w+)\}/g, ...)`: each `{name}` by its value, if there is one. The first
argument counts the characters of a match still to be passed over. -/
def substitute (value : List Char → Option (List Char)) : Nat → List Char → List Char
  | _, [] => []
  | skip + 1, _ :: url => substitute value skip url
  | 0, c :: url =>
    let name := url.takeWhile isWordChar
    if c = '\x7b' ∧ name ≠ [] ∧ (url.drop name.length).head? = some '\x7d' then
      (value name).getD (braces name) ++ substitute value (name.length + 1) url
    else c :: substitute value 0 url

def parameterText (engine : Engine) (parameters : Params) (name : List Char) : Option String :=
  if parameters.has (String.ofList name) then
    some (engine.text (parameters.get (String.ofList name)))
  else none

def httpConfigUrl (engine : Engine) (baseUrl : Option String) (path : String)
    (parameters : Params) : List Char :=
  substitute (fun name => (parameterText engine parameters name).map Js.encodeURIComponent) 0
    (configUrl baseUrl path)

/-! ## Placeholders of a configured path -/

/-- A name `executeHttpConfig` reads between braces. -/
def IsWordName (name : List Char) : Prop := name ≠ [] ∧ ∀ c ∈ name, isWordChar c = true

instance (name : List Char) : Decidable (IsWordName name) :=
  decidable_of_iff (name ≠ [] ∧ name.all isWordChar = true) (by rw [IsWordName, all_eq_true])

/-- What `executeHttpConfig` writes in a placeholder's place, if anything. -/
def configText (engine : Engine) (parameters : Params) (name : List Char) : Option String :=
  if IsWordName name then parameterText engine parameters name else none

section

variable {value : List Char → Option (List Char)}

theorem substitute_skip {url : List Char} {skip : Nat} (h : url.length ≤ skip) :
    substitute value skip url = [] := by
  induction url generalizing skip with
  | nil => rw [substitute]
  | cons c url ih =>
    cases skip with
    | zero => simp at h
    | succ skip => rw [substitute, ih (by simpa using h)]

theorem substitute_of_none {url : List Char}
    (h : ∀ name, IsWordName name → ¬ braces name <:+: url) : substitute value 0 url = url := by
  induction url with
  | nil => rfl
  | cons c url ih =>
    have hnot : ¬ (c = '\x7b' ∧ url.takeWhile isWordChar ≠ [] ∧
        (url.drop (url.takeWhile isWordChar).length).head? = some '\x7d') := by
      rintro ⟨rfl, hne, hclose⟩
      refine h (url.takeWhile isWordChar) ⟨hne, fun c hc => mem_takeWhile_imp hc⟩ ?_
      obtain ⟨rest, hrest⟩ := List.head?_eq_some_iff.mp hclose
      refine (List.IsPrefix.isInfix ⟨rest, ?_⟩)
      have hsplit := take_append_drop (url.takeWhile isWordChar).length url
      rw [hrest, ← prefix_iff_eq_take.mp (List.takeWhile_prefix isWordChar)] at hsplit
      conv_rhs => rw [← hsplit]
      simp [braces]
    rw [substitute, if_neg hnot, ih fun name hname hwithin =>
      h name hname (hwithin.trans (suffix_cons c url).isInfix)]

theorem substitute_braces {name : List Char} (h : IsWordName name) :
    substitute value 0 (braces name) = (value name).getD (braces name) := by
  have hclose : isWordChar '\x7d' = false := by decide
  have hname : (name ++ ['\x7d']).takeWhile isWordChar = name := by
    rw [takeWhile_append_of_pos h.2, takeWhile_cons_of_neg (by simp [hclose]), append_nil]
  rw [braces, substitute, hname, if_pos ⟨rfl, h.1, by simp⟩, substitute_skip (by simp), append_nil]
  rfl

theorem substitute_separated {c : Char} (hword : isWordChar c = false) (hopen : c ≠ '\x7b')
    (hclose : c ≠ '\x7d') {a : List Char} (b : List Char) {skip : Nat} (hskip : skip ≤ a.length) :
    substitute value skip (a ++ c :: b) = substitute value skip a ++ c :: substitute value 0 b := by
  induction a generalizing skip with
  | nil =>
    obtain rfl : skip = 0 := Nat.le_zero.mp hskip
    have hpast : substitute value 0 (c :: b) = c :: substitute value 0 b := by
      rw [substitute]
      exact if_neg fun h => hopen h.1
    rw [nil_append, hpast]
    rfl
  | cons d a ih =>
    rw [cons_append]
    cases skip with
    | succ skip => rw [substitute, substitute, ih (by simpa using hskip)]
    | zero =>
      have hname : (a ++ c :: b).takeWhile isWordChar = a.takeWhile isWordChar := by
        rw [takeWhile_append]
        split
        · rw [takeWhile_cons_of_neg (by simp [hword]), append_nil]
          next hall => exact ((List.takeWhile_prefix isWordChar).eq_of_length hall).symm
        · rfl
      have hle := (List.takeWhile_prefix isWordChar (l := a)).length_le
      have hnext : ((a ++ c :: b).drop (a.takeWhile isWordChar).length).head? = some '\x7d' ↔
          (a.drop (a.takeWhile isWordChar).length).head? = some '\x7d' := by
        rw [drop_append_of_le_length hle]
        cases a.drop (a.takeWhile isWordChar).length with
        | nil => simp [hclose]
        | cons e rest => simp
      rw [substitute, substitute, hname]
      simp only [hnext]
      split
      · next hcond =>
        have hlt : (a.takeWhile isWordChar).length < a.length := by
          by_contra hge
          have hdrop := drop_eq_nil_iff.mpr (Nat.le_of_not_lt hge)
          rw [hdrop] at hcond
          cases hcond.2.2
        rw [ih (by omega), append_assoc]
      · rw [ih (Nat.zero_le _), cons_append]

end

theorem eq_of_braces_within {name key : List Char} (hopen : '\x7b' ∉ name) (hclose : '\x7d' ∉ name)
    (h : braces key <:+: braces name) : key = name := by
  obtain ⟨before, after, heq⟩ := h
  cases before with
  | nil =>
    -- both end with the first closing brace
    have hinner : key ++ '\x7d' :: after = name ++ '\x7d' :: [] := by
      simpa [braces] using heq
    rcases append_eq_append_iff.mp hinner with ⟨d, rfl, hd⟩ | ⟨d, rfl, hd⟩
    · cases d with
      | nil => exact (append_nil key).symm
      | cons c d =>
        obtain rfl : '\x7d' = c := (List.cons.inj hd).1
        exact absurd (mem_append_right _ mem_cons_self) hclose
    · cases d with
      | nil => exact append_nil name
      | cons c d => exact absurd (List.cons.inj hd).2.symm (by simp)
  | cons c before =>
    have hinner : before ++ (braces key ++ after) = name ++ ['\x7d'] := by
      simpa [braces] using (List.cons.inj heq).2
    have hmem : '\x7b' ∈ name ++ ['\x7d'] := by
      rw [← hinner]
      exact mem_append_right _ (mem_append_left _ mem_cons_self)
    rcases mem_append.mp hmem with hmem | hmem
    · exact absurd hmem hopen
    · exact absurd (mem_singleton.mp hmem) (by decide)

theorem not_braces_of_not_mem {name text : List Char} (h : '\x7b' ∉ text) :
    ¬ braces name <:+: text :=
  fun hwithin => h (hwithin.subset mem_cons_self)

theorem not_braces_encoded (name : List Char) (text : String) :
    ¬ braces name <:+: Js.encodeURIComponent text :=
  not_braces_of_not_mem fun hmem => absurd (Url.encoded_plain text _ hmem) (by decide)

theorem httpConfigUrl_fill (engine : Engine) {baseUrl : Option String} {path : String}
    (parameters : Params) {T : Template} (hurl : configUrl baseUrl path = T.text)
    (hwhole : T.Whole IsWordName) : httpConfigUrl engine baseUrl path parameters =
      T.fill (configText engine parameters) := by
  rw [httpConfigUrl, hurl]
  refine T.map_fill (fun a c b hc => ?_) rfl (substitute_of_none hwhole.head)
    (substitute_of_none hwhole.tail) fun e he => ?_
  · have hne (d : Char) (hd : Url.isDelimiter d = false) : c ≠ d := by
      rintro rfl
      rw [hc] at hd
      cases hd
    refine substitute_separated ?_ (hne _ (by decide)) (hne _ (by decide)) b (Nat.zero_le _)
    simp only [Url.isDelimiter, Url.isSlash, Bool.or_eq_true, decide_eq_true_eq] at hc
    rcases hc with ((rfl | rfl) | rfl) | rfl <;> decide
  · obtain ⟨slash, segment⟩ := e
    cases segment with
    | literal text => exact substitute_of_none (hwhole.literal slash text he)
    | placeholder name =>
      obtain ⟨hopen, hclose⟩ := hwhole.placeholder slash name he
      by_cases hname : IsWordName name
      · show substitute _ 0 (braces name) = (configText engine parameters name).elim _ _
        rw [substitute_braces hname, configText, if_pos hname]
        cases parameterText engine parameters name <;> rfl
      · show substitute _ 0 (braces name) = (configText engine parameters name).elim _ _
        rw [configText, if_neg hname]
        refine substitute_of_none fun key hkey hwithin => hname ?_
        rwa [← eq_of_braces_within hopen hclose hwithin]

/-! ## Placeholders of an endpoint -/

/-- What `executeRestOperation` writes in a placeholder's place, if anything. -/
def pathText (engine : Engine) (pathParams : List (String × Js.At)) (name : List Char) :
    Option String :=
  (pathParams.lookup (String.ofList name)).map engine.text

theorem writePath_fill (engine : Engine) {T : Template} (pathParams : List (String × Js.At))
    (hwhole : T.Whole fun name => String.ofList name ∈ Assoc.keys pathParams)
    (hnames : ∀ name ∈ Assoc.keys pathParams, ∀ c ∈ name.toList, Url.isDelimiter c = false)
    (value : List Char → Option String) :
    (writePath engine (T.fill value) pathParams).1 =
      T.fill fun name => (value name).or (pathText engine pathParams name) := by
  induction pathParams generalizing value with
  | nil =>
    have hnone : (fun name => (value name).or (pathText engine [] name)) = value := by
      funext name
      exact Option.or_none
    rw [hnone]
    rfl
  | cons e rest ih =>
    obtain ⟨key, v⟩ := e
    have hkey : String.ofList key.toList = key := String.ofList_toList
    have hmem : String.ofList key.toList ∈ Assoc.keys ((key, v) :: rest) := by
      rw [hkey]
      exact mem_cons_self
    have hreplace : Js.replaceAll (braces key.toList) (Js.encodeURIComponent (engine.text v)) 0
        (T.fill value) = T.fill fun name => (value name).or
          (if name = key.toList then some (engine.text v) else none) := by
      refine T.map_fill (fun a c b hc => ?_) rfl
        (Js.replaceAll_of_absent (hwhole.head _ hmem))
        (Js.replaceAll_of_absent (hwhole.tail _ hmem)) fun e he => ?_
      · refine Js.replaceAll_separated ?_ (by simp [braces]) b (Nat.zero_le _)
        intro hin
        simp only [braces, mem_cons, mem_append, not_mem_nil, or_false] at hin
        rcases hin with rfl | hin | rfl
        · exact absurd hc (by decide)
        · rw [hnames key mem_cons_self c hin] at hc
          cases hc
        · exact absurd hc (by decide)
      · obtain ⟨slash, segment⟩ := e
        cases segment with
        | literal text => exact Js.replaceAll_of_absent (hwhole.literal slash text he _ hmem)
        | placeholder name =>
          obtain ⟨hopen, hclose⟩ := hwhole.placeholder slash name he
          show Js.replaceAll _ _ 0 ((value name).elim _ _) =
            ((value name).or (if name = key.toList then _ else none)).elim _ _
          cases value name with
          | some w => exact Js.replaceAll_of_absent (not_braces_encoded _ w)
          | none =>
            by_cases hname : name = key.toList
            · rw [if_pos hname, hname]
              exact Js.replaceAll_self _ (by simp [braces])
            · rw [if_neg hname]
              exact Js.replaceAll_of_absent fun hwithin =>
                hname (eq_of_braces_within hopen hclose hwithin).symm
    have hrest := ih (hwhole.mono fun name hname => mem_cons_of_mem _ hname)
      (fun name hname => hnames name (mem_cons_of_mem _ hname))
      fun name => (value name).or (if name = key.toList then some (engine.text v) else none)
    have hboth : (fun name => ((value name).or (if name = key.toList then some (engine.text v)
        else none)).or (pathText engine rest name)) =
        fun name => (value name).or (pathText engine ((key, v) :: rest) name) := by
      funext name
      rw [Option.or_assoc, pathText, pathText, Assoc.lookup_cons]
      congr 1
      by_cases hname : name = key.toList
      · have hofList : String.ofList name = key := by rw [hname, hkey]
        rw [if_pos hname, if_pos hofList]
        rfl
      · have hofList : ¬ String.ofList name = key := by
          rintro rfl
          exact hname String.toList_ofList.symm
        rw [if_neg hname, if_neg hofList]
        rfl
    rw [← hboth, ← hrest, ← hreplace]
    rfl

theorem url_of_request {engine : Engine} {network : Network} {baseUrl : String}
    {operation : Operation} {parameters : Fields} {request : RestRequest}
    (h : executeRestOperation engine network baseUrl operation parameters = some request) :
    request.url.toList = (writePath engine (joinUrl baseUrl operation.endpoint)
      (layOut operation parameters).pathParams).1 := by
  simp only [executeRestOperation, bind, Option.bind_eq_some_iff] at h
  obtain ⟨-, -, -, -, -, -, h⟩ := h
  rw [buildRequest, Option.map_eq_some_iff] at h
  obtain ⟨headers, -, rfl⟩ := h
  exact String.toList_ofList

/-! ## Path parameters stay in their segments -/

theorem path_parameters_inside {Origin : Type} {origin : Origin} (engine : Engine)
    (readOrigin : List Char → List Char → Option Origin) (T : Template)
    (hscheme : Url.isWebScheme (T.scheme.map Char.toLower) = true)
    (horigin : readOrigin (T.scheme.map Char.toLower) T.authority = some origin) :
    (∀ baseUrl path parameters, configUrl baseUrl path = T.text → T.Whole IsWordName →
      (T.Stays readOrigin origin (httpConfigUrl engine baseUrl path parameters) ↔
        T.Undotted (configText engine parameters))) ∧
    (∀ network baseUrl operation parameters request,
      executeRestOperation engine network baseUrl operation parameters = some request →
      joinUrl baseUrl operation.endpoint = T.text →
      (T.Whole fun name =>
        String.ofList name ∈ Assoc.keys (layOut operation parameters).pathParams) →
      (∀ name ∈ Assoc.keys (layOut operation parameters).pathParams,
        ∀ c ∈ name.toList, Url.isDelimiter c = false) →
      (T.Stays readOrigin origin request.url.toList ↔
        T.Undotted (pathText engine (layOut operation parameters).pathParams))) := by
  constructor
  · intro baseUrl path parameters hurl hwhole
    rw [httpConfigUrl_fill engine parameters hurl hwhole]
    exact T.stays_iff _ hscheme horigin
  · intro network baseUrl operation parameters request hrequest hurl hwhole hnames
    have hwritten : request.url.toList =
        (writePath engine T.text (layOut operation parameters).pathParams).1 := by
      rw [← hurl]
      exact url_of_request hrequest
    rw [hwritten, Template.text, writePath_fill engine _ hwhole hnames]
    exact T.stays_iff _ hscheme horigin

/-- `https://api.example.com/users/{id}/posts`. -/
def postsTemplate : Template where
  head := "https://api.example.com".toList
  segments := [('/', .literal "users".toList), ('/', .placeholder "id".toList),
    ('/', .literal "posts".toList)]
  tail := []
  scheme := "https".toList
  slashes := "//".toList
  authority := "api.example.com".toList
  head_eq := by decide
  scheme_chars := Js.forall_mem_of_all (by decide)
  slashes_chars := Js.forall_mem_of_all (by decide)
  authority_ne := by decide
  authority_chars := Js.forall_mem_of_all (by decide)
  segments_ne := by decide
  slash := by decide
  literal_chars slash text h := by
    simp only [mem_cons, Prod.mk.injEq, Segment.literal.injEq, reduceCtorEq, and_false,
      not_mem_nil, or_false, false_or] at h
    rcases h with ⟨-, rfl⟩ | ⟨-, rfl⟩
    · exact Js.forall_mem_of_all (by decide)
    · exact Js.forall_mem_of_all (by decide)
  name_chars slash name h := by
    simp only [mem_cons, Prod.mk.injEq, Segment.placeholder.injEq, reduceCtorEq, and_false,
      not_mem_nil, or_false, false_or] at h
    rw [h.2]
    exact Js.forall_mem_of_all (by decide)
  tail_head c hc := nomatch hc

theorem segments_postsTemplate : postsTemplate.segments =
    [('/', .literal "users".toList), ('/', .placeholder "id".toList),
      ('/', .literal "posts".toList)] :=
  rfl

theorem whole_postsTemplate (names : List Char → Prop) : postsTemplate.Whole names := by
  refine ⟨fun _ _ => not_braces_of_not_mem (by decide),
    fun _ _ => not_braces_of_not_mem (by decide),
    fun slash text h _ _ => not_braces_of_not_mem ?_, fun slash name h => ?_⟩
  · rw [segments_postsTemplate] at h
    simp only [mem_cons, Prod.mk.injEq, Segment.literal.injEq, reduceCtorEq, and_false,
      not_mem_nil, or_false, false_or] at h
    rcases h with ⟨-, rfl⟩ | ⟨-, rfl⟩ <;> decide
  · rw [segments_postsTemplate] at h
    simp only [mem_cons, Prod.mk.injEq, Segment.placeholder.injEq, reduceCtorEq, and_false,
      not_mem_nil, or_false, false_or] at h
    rw [h.2]
    decide

def plainOrigin (scheme authority : List Char) : Option (List Char × List Char) :=
  some (scheme, authority)

def postsOperation : Operation where
  method := .GET
  endpoint := "/users/\x7bid\x7d/posts"

/-- A value with a slash, in a configured path and in an endpoint. -/
theorem path_parameters_inside_posts :
    (postsTemplate.Stays plainOrigin ("https".toList, "api.example.com".toList)
        (httpConfigUrl wholeEngine (some "https://api.example.com/") "/users/\x7bid\x7d/posts"
          [("id", .json (.str "a/b"))]) ↔
      postsTemplate.Undotted (configText wholeEngine [("id", .json (.str "a/b"))])) ∧
    ∃ request, executeRestOperation wholeEngine ⟨fun _ => true, fun _ _ => true⟩
        "https://api.example.com/" postsOperation [("id", .str "a/b")] = some request ∧
      (postsTemplate.Stays plainOrigin ("https".toList, "api.example.com".toList)
          request.url.toList ↔
        postsTemplate.Undotted (pathText wholeEngine [("id", .json (.str "a/b"))])) := by
  have horigin : plainOrigin (postsTemplate.scheme.map Char.toLower) postsTemplate.authority =
      some ("https".toList, "api.example.com".toList) := rfl
  obtain ⟨hconfig, hoperation⟩ :=
    path_parameters_inside wholeEngine plainOrigin postsTemplate (by decide) horigin
  have hlaid : (layOut postsOperation [("id", .str "a/b")]).pathParams =
      [("id", .json (.str "a/b"))] := by decide
  refine ⟨hconfig _ _ _ (by decide) (whole_postsTemplate _), ?_⟩
  cases hrequest : executeRestOperation wholeEngine ⟨fun _ => true, fun _ _ => true⟩
      "https://api.example.com/" postsOperation [("id", .str "a/b")] with
  | none =>
    have hsome : (executeRestOperation wholeEngine ⟨fun _ => true, fun _ _ => true⟩
      "https://api.example.com/" postsOperation [("id", .str "a/b")]).isSome = true := by
      decide
    rw [hrequest] at hsome
    cases hsome
  | some request =>
    have hstays := hoperation _ _ _ _ _ hrequest (by decide) (whole_postsTemplate _)
      (by
        rw [hlaid]
        intro name hname
        obtain rfl := mem_singleton.mp hname
        exact Js.forall_mem_of_all (by decide))
    rw [hlaid] at hstays
    exact ⟨request, rfl, hstays⟩

/-- Two dots take the segment before them out. -/
theorem dots_leave_their_segment : ¬ ∀ (engine : Engine) (T : Template) (origin : List Char × List Char)
    (baseUrl : Option String) (path : String) (parameters : Params),
    Url.isWebScheme (T.scheme.map Char.toLower) = true →
      plainOrigin (T.scheme.map Char.toLower) T.authority = some origin →
        configUrl baseUrl path = T.text → T.Whole IsWordName →
          T.Stays plainOrigin origin (httpConfigUrl engine baseUrl path parameters) := by
  intro hclaim
  have hurl : configUrl (some "https://api.example.com") "/users/\x7bid\x7d/posts" =
      postsTemplate.text := by decide
  have hstays := hclaim wholeEngine postsTemplate ("https".toList, "api.example.com".toList) _ _
    [("id", .json (.str ".."))] (by decide) rfl hurl (whole_postsTemplate _)
  rw [httpConfigUrl_fill wholeEngine _ hurl (whole_postsTemplate _),
    postsTemplate.stays_iff _ (by decide) rfl] at hstays
  have hvalue : configText wholeEngine [("id", .json (.str ".."))] "id".toList = some ".." := by
    decide
  exact (hstays.inner 1 '/' "id".toList ".." rfl hvalue (by decide)).2 rfl

end Almyty.Tools
