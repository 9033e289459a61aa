import Almyty.Tools.ApprovalGate

/-!
# The request of an imported operation: `executors/tool-http.executor.ts`

`executeRestOperation` takes a call's arguments in two shapes (`argument-shape.ts`): grouped by
where they go, `{ path, query, header, body }`, or flat, by name. `layOut` sorts them into path,
query, header and body; `buildRequest` writes the path values into the URL, drops the headers
`sanitizeHeaders` drops and keeps the body of a write. The query is written by
`serializeQueryParams`, one part at a time.

`RestRequest.carries` is what the request says of one input: the values written for it in the path,
the query, the headers and the body.

Mirroring notes:
- A value is kept as the argument it is; the text it is sent as is `String(value)` of it.
- The egress rules and the gateway tool's policy are parameters.
-/

namespace Almyty.Lib.Js

def At.nullish : At → Bool
  | .undefined | .json .null => true
  | _ => false

/-- Whether a value used as a condition counts as true. -/
def At.truthy : At → Bool
  | .undefined => false
  | .json v => v.truthy
  | .method | .objectPrototype | .arrayPrototype => true

def At.orElse (a b : At) : At := if a.nullish then b else a

end Almyty.Lib.Js

namespace Almyty.Tools

open Almyty.Lib
open Almyty.Approvals

/-! ## The operation -/

inductive HttpMethod
  | GET | POST | PUT | PATCH | DELETE | OPTIONS | HEAD

def HttpMethod.writes : HttpMethod → Bool
  | .POST | .PUT | .PATCH => true
  | _ => false

/-- The inputs an operation declares, by where they go; each declaration is any JSON. -/
structure OperationParameters where
  path : Fields := []
  query : Fields := []
  header : Fields := []
  /-- `null` when the operation declares no body. -/
  body : Json := .null

structure Operation where
  method : HttpMethod
  endpoint : String
  parameters : OperationParameters := {}

def OperationParameters.bodyProperties (p : OperationParameters) : Js.At :=
  ((Js.At.json p.body).get "schema").get "properties"

def ownKeys : Js.At → List String
  | .json v => Assoc.keys v.spread
  | _ => []

def Operation.declared (operation : Operation) : List String :=
  Assoc.keys operation.parameters.path ++ Assoc.keys operation.parameters.query ++
    Assoc.keys operation.parameters.header ++ ownKeys operation.parameters.bodyProperties

/-! ## Grouped or flat -/

def groupKeys : List String := ["path", "query", "header", "body"]

def declaredInput (operation : Operation) (name : String) : Js.At :=
  let p := operation.parameters
  ((((Js.At.json (.obj p.path)).get name).orElse ((Js.At.json (.obj p.query)).get name)).orElse
    ((Js.At.json (.obj p.header)).get name)).orElse (p.bodyProperties.get name)

def takesObject (param : Js.At) : Bool :=
  let type := ((param.get "schema").get "type").orElse (param.get "type")
  type = .json (.str "object") ||
    (!type.truthy && (((param.get "schema").get "properties").orElse (param.get "properties")).truthy)

def isGroup (operation : Operation) (key : String) (value : Json) : Bool :=
  match value with
  | .obj fields =>
    -- under a declared input's name it is the group only if the input takes no object and
    -- everything inside is a declared input
    !operation.declared.contains key ||
      (!takesObject (declaredInput operation key) && !fields.isEmpty &&
        (Assoc.keys fields).all (operation.declared.contains ·))
  | .arr _ => key = "body" && !operation.declared.contains key
  | _ => false

def isGroupedArguments (parameters : Fields) (operation : Operation) : Bool :=
  let present := groupKeys.filterMap fun key =>
    match parameters.lookup key with
    | none | some .null => none
    | some value => some (key, value)
  !present.isEmpty && present.all fun e => isGroup operation e.1 e.2

/-! ## Laying the arguments out -/

inductive HeaderParam
  | text (value : Js.At)
  | raw (value : Json)

def HeaderParam.value : HeaderParam → Js.At
  | .text value => value
  | .raw value => .json value

structure LaidOut where
  pathParams : List (String × Js.At) := []
  queryParams : Fields := []
  headerParams : List (String × HeaderParam) := []
  bodyData : Json := .null

/-- Headers the credential or the executor set themselves. -/
def notAnInput : List String :=
  ["authorization", "proxy-authorization", "cookie", "content-type", "content-length", "host",
    "accept", "soapaction"]

def operationHeaderParams (operation : Operation) : List String :=
  (Assoc.keys operation.parameters.header).filter fun name =>
    !notAnInput.contains (Js.toLowerCase name)

/-- `matchDelimited(endpoint, '{', '}')`, without the braces. -/
def pathParamNames (operation : Operation) : List String :=
  Js.delimited '{' '}' none operation.endpoint.toList

def assignSome {α : Type} (value : String → Option α) (into : List (String × α)) (name : String) :
    List (String × α) :=
  match value name with
  | some v => Js.assign into name v
  | none => into

/-- The object a loop over names fills. -/
def assignEach {α : Type} (names : List String) (value : String → Option α) : List (String × α) :=
  names.foldl (assignSome value) []

/-- Every group goes where its name says. -/
def grouped (parameters : Fields) : LaidOut :=
  let group (key : String) : Fields := ((parameters.lookup key).getD .null).fieldsOrEmpty
  { pathParams := (group "path").map fun e => (e.1, .json e.2)
    queryParams := group "query"
    headerParams := (group "header").map fun e => (e.1, .raw e.2)
    bodyData := (parameters.lookup "body").getD .null }

/-- By name: the endpoint's placeholders are path parameters, the declared headers are
headers, the rest go to the body of a write that declares one (its declared query
parameters apart) and to the query otherwise. -/
def flat (operation : Operation) (parameters : Fields) : LaidOut :=
  let at' (name : String) : Js.At := (Js.At.json (.obj parameters)).get name
  let own (name : String) : Option Json := parameters.lookup name
  let pathNames := pathParamNames operation
  let headerNames := operationHeaderParams operation
  let rest := (Assoc.keys parameters).filter fun key =>
    !pathNames.contains key && !headerNames.contains key
  let laid : LaidOut :=
    -- a name that is not there may still be inherited, and is sent then
    { pathParams := assignEach pathNames fun name =>
        if at' name = .undefined then none else some (at' name)
      headerParams := assignEach headerNames fun name =>
        if (at' name).nullish then none else some (.text (at' name)) }
  if operation.method.writes && operation.parameters.body.truthy then
    let queryNames := Assoc.keys operation.parameters.query
    { laid with
      queryParams := assignEach (rest.filter (queryNames.contains ·)) own
      bodyData := .obj (assignEach (rest.filter (!queryNames.contains ·)) own) }
  else { laid with queryParams := assignEach rest own }

def layOut (operation : Operation) (parameters : Fields) : LaidOut :=
  if isGroupedArguments parameters operation then grouped parameters
  else flat operation parameters

/-! ## The query -/

def push (name : String) (value : Json) : Fields := if value = .null then [] else [(name, value)]

mutual

/-- `name[key]=value`, at every depth. -/
def brackets (name : String) : Json → Fields
  | .arr items => bracketItems name items
  | .obj fields => bracketFields name fields
  | .null => []
  | .bool b => push name (.bool b)
  | .num n => push name (.num n)
  | .str s => push name (.str s)

def bracketItems (name : String) : List Json → Fields
  | [] => []
  | item :: items => brackets (name ++ "[]") item ++ bracketItems name items

def bracketFields (name : String) : Fields → Fields
  | [] => []
  | (key, value) :: fields =>
    brackets (name ++ "[" ++ key ++ "]") value ++ bracketFields name fields

end

/-- An object parameter sent as JSON text is read as the object it spells. -/
def readQueryValue (engine : Engine) (spec : Js.At) (raw : Json) : Json :=
  match raw with
  | .str s =>
    if (spec.get "type" = .json (.str "object") || spec.get "style" = .json (.str "deepObject")) &&
        (s.toList.dropWhile Js.isSpace).head? = some '{' then
      (engine.parse s).getD raw
    else raw
  | _ => raw

/-- How one parameter is written, by the style its declaration gives. -/
def serializeQueryParam (engine : Engine) (styles : Fields) (name : String) (raw : Json) : Fields :=
  let spec := (Js.At.json (.obj styles)).get name
  let deepObject := spec.get "style" = .json (.str "deepObject")
  let exploded := spec.get "explode" ≠ .json (.bool false)
  match readQueryValue engine spec raw with
  | .arr items =>
    if deepObject then bracketItems name items
    else if ¬exploded then [(name, .arr items)]
    else items.flatMap (push name)
  | .obj fields =>
    if !spec.truthy ∨ deepObject then bracketFields name fields
    else if ¬exploded then [(name, .obj fields)]
    -- the form style: the properties become parameters of their own
    else fields.flatMap fun e => push e.1 e.2
  | value => push name value

def serializeQueryParams (engine : Engine) (params styles : Fields) : Fields :=
  params.flatMap fun e => serializeQueryParam engine styles e.1 e.2

/-! ## The headers -/

def blockedHeaders : List String :=
  ["host", "transfer-encoding", "connection", "upgrade", "proxy-authorization",
    "proxy-connection", "te", "trailer", "keep-alive", "x-forwarded-for", "x-forwarded-host",
    "x-forwarded-proto", "x-real-ip", "forwarded", "cookie", "set-cookie"]

def tooLong (engine : Engine) : HeaderParam → Option Bool
  | .text value => some (8192 < (Js.codeUnits (engine.text value)).length)
  | .raw (.str s) => some (8192 < (Js.codeUnits s).length)
  | .raw (.arr items) => some (8192 < items.length)
  | .raw (.obj fields) => some (ordered engine.coerced .lt 8192 (fields.lookup "length"))
  | .raw (.bool _) | .raw (.num _) => some false
  | .raw .null => none

/-- One header: dropped when a request may not set it, when it has a line end and when it
is too long. -/
def sanitizeHeader (engine : Engine) (sanitized : List (String × HeaderParam))
    (e : String × HeaderParam) : Option (List (String × HeaderParam)) :=
  if blockedHeaders.contains (Js.toLowerCase e.1) then some sanitized
  else if (engine.text e.2.value).toList.any (fun c => c = '\r' || c = '\n') then some sanitized
  else
    match tooLong engine e.2 with
    | none => none
    | some true => some sanitized
    | some false => some (Js.assign sanitized e.1 e.2)

def sanitizeHeaders (engine : Engine) (headers : List (String × HeaderParam)) :
    Option (List (String × HeaderParam)) :=
  headers.foldlM (sanitizeHeader engine) []

/-! ## The request -/

/-- What is sent, as far as the arguments decide it. -/
structure RestRequest where
  method : HttpMethod
  url : String
  /-- The values written into the URL, by placeholder. -/
  path : List (String × Js.At)
  params : Fields
  /-- The declarations `params` is written by. -/
  styles : Fields
  headers : List (String × HeaderParam)
  data : Option Json

def joinUrl (baseUrl endpoint : String) : List Char :=
  if endpoint = "" then baseUrl.toList
  else (baseUrl.toList.reverse.dropWhile (· = '/')).reverse ++
    '/' :: endpoint.toList.dropWhile (· = '/')

/-- Writes the path parameters into a URL, every occurrence of each: the URL, and the
values that stand in it. -/
def writePath (engine : Engine) : List Char → List (String × Js.At) →
    List Char × List (String × Js.At)
  | url, [] => (url, [])
  | url, (key, value) :: rest =>
    let pattern := '{' :: key.toList ++ ['}']
    let text := Js.encodeURIComponent (engine.text value)
    let (written, values) := writePath engine (Js.replaceAll pattern text 0 url) rest
    (written, if Js.occurs pattern url then (key, value) :: values else values)

/-- The rules on what may be called: the organization's egress rules and the gateway
tool's policy. -/
structure Network where
  egress : String → Bool
  policy : String → HttpMethod → Bool

def buildRequest (engine : Engine) (baseUrl : String) (operation : Operation) (laid : LaidOut) :
    Option RestRequest :=
  let (url, path) := writePath engine (joinUrl baseUrl operation.endpoint) laid.pathParams
  (sanitizeHeaders engine laid.headerParams).map fun headers =>
    { method := operation.method
      url := String.ofList url
      path
      params := laid.queryParams
      styles := operation.parameters.query
      headers
      data :=
        if laid.bodyData.truthy && operation.method.writes then some laid.bodyData else none }

def executeRestOperation (engine : Engine) (network : Network) (baseUrl : String)
    (operation : Operation) (parameters : Fields) : Option RestRequest := do
  guard (network.egress baseUrl)
  -- the base alone is checked first, the written URL after
  let laid := layOut operation parameters
  let url := String.ofList
    (writePath engine (joinUrl baseUrl operation.endpoint) laid.pathParams).1
  guard (network.egress url)
  guard (network.policy url operation.method)
  buildRequest engine baseUrl operation laid

def sameHeader (name name' : String) : Bool := Js.toLowerCase name = Js.toLowerCase name'

def RestRequest.bodyFields (request : RestRequest) : Fields :=
  (request.data.getD .null).fieldsOrEmpty

def RestRequest.carries (engine : Engine) (request : RestRequest) (name : String) : List Js.At :=
  (request.path.filter (·.1 = name)).map (·.2) ++
    ((serializeQueryParams engine request.params request.styles).filter (·.1 = name)).map
      (fun e => .json e.2) ++
    (request.headers.filter (sameHeader ·.1 name)).map (·.2.value) ++
    (request.bodyFields.filter (·.1 = name)).map (fun e => .json e.2)

end Almyty.Tools
