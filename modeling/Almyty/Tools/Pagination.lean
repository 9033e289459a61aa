import Almyty.Security.SafeFetch
import Almyty.Tools.RestRequest

/-!
# Paged answers: `executors/tool-http-pagination.ts`

`executeWithPagination` requests page after page of an upstream's answer, by a cursor, by an offset
or by the links in a header, and collects what the pages hold. What the loop did is kept as
`PageEvent`s: the two gates' answers on a page URL an answer named, and the requests.

A page URL goes through both gates before it is requested, whatever the upstream answers. The rest
holds under conditions: a number of pages that is not whole lets one request too many through; the
headers of the first request, the credential's among them, go to every page, also to one on another
origin; and the offset steps by the configured limit, or by 20, whatever the server's pages hold.
`pagination_safe` is the whole under these conditions.

Mirroring notes:
- What the upstream answers is any function of the number of the request and the request; `none` is
  a failure of the transport.
- The members of primitive values and functions are the engine's, and so is what
  `evaluateHttpSuccessCondition` makes of a response: where it fails the page is an error.
-/

namespace Almyty.Tools

open Almyty.Lib
open Almyty.Security

/-! ## Configuration -/

inductive PaginationType
  | cursor | offset | linkHeader
  | other (name : String)

/-- An absent text is empty: either counts as false. -/
structure Pagination where
  type : PaginationType
  cursorPath : String := ""
  cursorParam : String := ""
  offsetParam : String := ""
  limitParam : String := ""
  defaultLimit : Option Rat := none
  resultsPath : String := ""
  maxPages : Option Rat := none

structure ResponseMapping where
  successCondition : String := ""
  errorPath : String := ""
  dataPath : String := ""

structure PagedConfig where
  pagination : Pagination
  responseMapping : ResponseMapping := {}

/-- The request of the first page. The credential's headers are assigned onto the tool's. -/
structure BaseConfig where
  url : String
  method : Option Method := none
  params : Fields := []
  toolHeaders : List (String × String) := []
  credential : List (String × String) := []

def BaseConfig.headers (base : BaseConfig) : List (String × String) :=
  base.credential.foldl (fun headers e => Js.assign headers e.1 e.2) base.toolHeaders

structure PageRequest where
  url : String
  /-- `undefined` for a page URL an answer named. -/
  params : Option Fields
  headers : List (String × String)
  deriving DecidableEq

def PageRequest.carries (request : PageRequest) (headers : List (String × String)) : Prop :=
  ∃ e ∈ headers, e ∈ request.headers

instance (request : PageRequest) (headers : List (String × String)) :
    Decidable (request.carries headers) :=
  inferInstanceAs (Decidable (∃ e ∈ headers, e ∈ request.headers))

structure PageResponse where
  status : Nat := 200
  data : Json
  headers : List (String × String) := []

structure Outside where
  engine : Engine
  /-- `value[key]` of a primitive value or a function. -/
  member : Js.At → String → Js.At
  /-- `evaluateHttpSuccessCondition`. -/
  succeeds : String → Nat → Json → Bool
  parser : UrlParser
  addresses : Addresses
  casing : Casing
  upstream : Nat → PageRequest → Option PageResponse
  aborted : Nat → Bool := fun _ => false

inductive PageError
  | refused (message : String)
  | policy (url reason : String)
  | transport
  /-- The success condition is not met. -/
  | failed (message : String)
  deriving DecidableEq

inductive PageEvent
  | checked (next : String) (verdict : Except String String)
  | policed (url : String) (refusal : Option String)
  | request (taken : Option String) (request : PageRequest)

def pageRequests (events : List PageEvent) : List PageRequest :=
  events.filterMap fun
    | .request _ request => some request
    | .checked _ _ | .policed _ _ => none

structure PagesEnd where
  result : Except PageError (List Js.At)
  events : List PageEvent

/-- The variables of the loop. -/
structure PageState where
  pageCount : Nat := 0
  allResults : List Js.At := []
  nextCursor : Option String := none
  nextUrl : Option String := none
  offset : Rat := 0
  events : List PageEvent := []

/-! ## Reading an answer -/

def nextLinkFrom (rest : List Char) : Option (List Char) :=
  match _hopen : rest.dropWhile (· ≠ '<') with
  | [] => none
  | _ :: inside =>
    match hclose : inside.dropWhile (· ≠ '>') with
    | [] => none
    | _ :: after =>
      let target := inside.takeWhile (· ≠ '>')
      let isNext :=
        match after with
        | ';' :: rel => "rel=\"next\"".toList.isPrefixOf (rel.dropWhile Js.isSpace)
        | _ => false
      if target ≠ [] && isNext then some target else nextLinkFrom after
termination_by rest.length
decreasing_by
  have hopen' := (List.dropWhile_suffix (l := rest) (· ≠ '<')).length_le
  have hclose' := (List.dropWhile_suffix (l := inside) (· ≠ '>')).length_le
  simp only [_hopen, hclose, List.length_cons] at hopen' hclose'
  omega

def nextLinkTarget (header : String) : Option String :=
  (nextLinkFrom header.toList).map String.ofList

def arrayItems : Js.At → Option (List Json)
  | .json (.arr items) => some items
  | .arrayPrototype => some []
  | _ => none

def collected (results : Js.At) : List Js.At :=
  match arrayItems results with
  | some items => items.map .json
  | none => if results.nullish then [] else [results]

section

variable (outside : Outside)

def readMember (curr : Js.At) (key : String) : Js.At :=
  match curr with
  | .undefined | .json .null => .undefined
  | .json (.obj _) | .json (.arr _) | .objectPrototype | .arrayPrototype => curr.get key
  | .json (.bool _) | .json (.num _) | .json (.str _) | .method => outside.member curr key

def getByDotPath (obj : Json) (path : String) : Js.At :=
  if path = "" then .undefined else (Js.dotParts path).foldl (readMember outside) (.json obj)

def processHttpResponse (mapping : ResponseMapping) (response : PageResponse) :
    Except PageError Js.At :=
  if mapping.successCondition ≠ "" ∧
      outside.succeeds mapping.successCondition response.status response.data = false then
    .error (.failed (if mapping.errorPath ≠ "" then
      outside.engine.text (getByDotPath outside response.data mapping.errorPath)
      else "Request failed"))
  else if mapping.dataPath ≠ "" then .ok (getByDotPath outside response.data mapping.dataPath)
  else .ok (.json response.data)

def pageResults (httpConfig : PagedConfig) (response : PageResponse) : Except PageError Js.At :=
  (processHttpResponse outside httpConfig.responseMapping response).map fun processed =>
    if httpConfig.pagination.resultsPath ≠ "" then
      getByDotPath outside response.data httpConfig.pagination.resultsPath
    else processed

/-! ## The gates -/

/-- The page URL an answer named, as it is to be requested, or why it may not be. -/
def assertSafeNextPageUrl (nextUrl baseUrl : String) : Except String String :=
  if nextUrl = "" then .error "Pagination next URL is empty"
  else
    match outside.parser.parse nextUrl (if baseUrl = "" then none else some baseUrl) with
    | none => .error ("Invalid pagination next URL: " ++ nextUrl)
    | some resolved =>
      match validateUrl outside.parser outside.addresses resolved.href with
      | .error error => .error ("Refused pagination next URL: " ++ error)
      | .ok _ => .ok resolved.href

def assertToolRequestAllowed (policy : Option GatewayToolSecurityPolicy) (url : String)
    (method : Option Method) : Option String :=
  match policy with
  | none => none
  | some policy =>
    match outside.parser.parse url none with
    | none => some ("not a valid URL: " ++ url)
    | some parsed =>
      decideToolRequest outside.casing policy
        { hostname := parsed.hostname, protocol := parsed.protocol }
        (method.getD ⟨"GET", get_nonblank⟩)

/-! ## A page -/

section

variable (base : BaseConfig) (httpConfig : PagedConfig)
  (policy : Option GatewayToolSecurityPolicy)

def Pagination.pageLimit (pagination : Pagination) : Rat := pagination.maxPages.getD 5

def Pagination.step (pagination : Pagination) : Rat := pagination.defaultLimit.getD 20

def PageState.followed (s : PageState) (type : PaginationType) : Option String :=
  match type with
  | .cursor | .linkHeader => s.nextUrl.filter (· ≠ "")
  | .offset | .other _ => none

def offsetParams (pagination : Pagination) (params : Fields) (offset : Rat) : Fields :=
  let params :=
    if pagination.offsetParam ≠ "" then Js.assign params pagination.offsetParam (.num offset)
    else params
  match pagination.defaultLimit with
  | some limit =>
    if pagination.limitParam ≠ "" ∧ limit ≠ 0 then
      Js.assign params pagination.limitParam (.num limit)
    else params
  | none => params

/-- The parameters of a page that is requested from the first URL. -/
def PageState.params (s : PageState) : Fields :=
  let pagination := httpConfig.pagination
  match pagination.type with
  | .cursor =>
    match s.nextCursor.filter (· ≠ "") with
    | some cursor =>
      if pagination.cursorParam ≠ "" then
        Js.assign base.params pagination.cursorParam (.str cursor)
      else base.params
    | none => base.params
  | .offset => offsetParams pagination base.params s.offset
  | .linkHeader | .other _ => base.params

def PageState.pageConfig (s : PageState) :
    List PageEvent × Except PageError (Option String × PageRequest) :=
  match s.followed httpConfig.pagination.type with
  | none =>
    ([], .ok (none, { url := base.url, params := some (s.params base httpConfig),
                      headers := base.headers }))
  | some next =>
    match assertSafeNextPageUrl outside next base.url with
    | .error message => ([.checked next (.error message)], .error (.refused message))
    | .ok url =>
      match assertToolRequestAllowed outside policy url base.method with
      | some reason =>
        ([.checked next (.ok url), .policed url (some reason)], .error (.policy url reason))
      | none =>
        ([.checked next (.ok url), .policed url none],
          .ok (some next, { url, params := none, headers := base.headers }))

/-- Where the loop goes on after a page, if it does. -/
def PageState.next (s : PageState) (response : PageResponse) (results : Js.At) : Option PageState :=
  let pagination := httpConfig.pagination
  match pagination.type with
  | .cursor =>
    if pagination.cursorPath = "" then none
    else
      let cursor := getByDotPath outside response.data pagination.cursorPath
      if !cursor.truthy then none
      else
        match cursor with
        | .json (.str text) =>
          if "http".toList <+: text.toList ∨ "/".toList <+: text.toList then
            some { s with nextUrl := some text, nextCursor := none }
          else some { s with nextCursor := some text, nextUrl := none }
        | _ => some { s with nextCursor := some (outside.engine.text cursor), nextUrl := none }
  | .offset =>
    match arrayItems results with
    | some items =>
      if pagination.step ≤ items.length then some { s with offset := s.offset + pagination.step }
      else none
    | none => none
  | .linkHeader =>
    let linkHeader :=
      ((response.headers.lookup "link").filter (· ≠ "")).or
        ((response.headers.lookup "Link").filter (· ≠ ""))
    (linkHeader.bind nextLinkTarget).map fun target => { s with nextUrl := some target }
  | .other _ => none

def pageTurn (s : PageState) : Loop.Turn PageState PagesEnd :=
  if (s.pageCount : Rat) < httpConfig.pagination.pageLimit ∧ !outside.aborted s.pageCount then
    let (gates, config) := s.pageConfig outside base httpConfig policy
    match config with
    | .error error => .done ⟨.error error, s.events ++ gates⟩
    | .ok (taken, request) =>
      let events := s.events ++ gates ++ [.request taken request]
      match outside.upstream s.pageCount request with
      | none => .done ⟨.error .transport, events⟩
      | some response =>
        match pageResults outside httpConfig response with
        | .error error => .done ⟨.error error, events⟩
        | .ok results =>
          let allResults := s.allResults ++ collected results
          match s.next outside httpConfig response results with
          | none => .done ⟨.ok allResults, events⟩
          | some s' => .again { s' with pageCount := s.pageCount + 1, allResults, events }
  else .done ⟨.ok s.allResults, s.events⟩

def executeWithPagination (fuel : Nat) : Option PagesEnd :=
  Loop.run (pageTurn outside base httpConfig policy) fuel {}

end

end

end Almyty.Tools
