import Almyty.Security.SandboxNetGuard

/-!
# Which URLs may be requested: `common/security/url-validator.ts`

`validateUrl` is the string half of the outbound gate: http and https only, no credentials in the
URL, no blocked or ambiguous host, no internal service port. `validateUrlAllowingPrivate` is the
relaxed one for a host that was opted in. Both answer with the URL as the parser writes it.

Mirroring notes:
- The URL parser and the address classifier are parameters (`UrlParser`, `Addresses`).
-/

namespace Almyty.Security

open Almyty.Lib

structure ParsedUrl where
  protocol : String
  username : String := ""
  password : String := ""
  hostname : String
  /-- `none` for the default port. -/
  port : Option Nat := none
  origin : String
  /-- `toString()`. -/
  href : String

structure UrlParser where
  parse : String → Option String → Option ParsedUrl

/-- `ip-classification.ts`. -/
structure Addresses where
  isIP : String → Bool
  isBlockedHostname : String → Bool
  /-- `classifyAddress` of a blocked address: whether it is a cloud's metadata endpoint. -/
  blocked : String → Option Bool

/-- The URL as it is to be requested, or why it may not be. -/
abbrev UrlValidationResult := Except String String

def bareName (hostname : String) : String :=
  String.ofList (hostname.toList.reverse.dropWhile (· = '.')).reverse

def isHexDigit (c : Char) : Bool :=
  c.isDigit || ('a' ≤ c && c ≤ 'f') || ('A' ≤ c && c ≤ 'F')

/-- `/^(?:0x[0-9a-f]+|\d+|\d{1,3}(?:\.\d{1,3}){1,3})$/i`. -/
def ambiguousNumeric (host : String) : Bool :=
  let hex :=
    match host.toList with
    | '0' :: x :: digits => (x = 'x' || x = 'X') && !digits.isEmpty && digits.all isHexDigit
    | _ => false
  let parts := host.toList.splitOn '.'
  hex || (!host.toList.isEmpty && host.toList.all Char.isDigit) ||
    (2 ≤ parts.length && parts.length ≤ 4 &&
      parts.all fun part => 1 ≤ part.length && part.length ≤ 3 && part.all Char.isDigit)

/-- Redis, Postgres, MySQL, Mongo, Elasticsearch, etcd, Consul. -/
def INTERNAL_ONLY_PORTS : List Nat := [6379, 5432, 3306, 27017, 9200, 2379, 8500]

def isLikelyInternal (addresses : Addresses) (hostname : String) : Bool :=
  !addresses.isIP hostname &&
    (!hostname.toList.contains '.' ||
      [".local", ".internal", ".corp", ".lan", ".svc", ".cluster"].any fun ending =>
        ending.toList.isSuffixOf hostname.toList)

section

variable (parser : UrlParser) (addresses : Addresses)

/-- The checks that hold whatever the host is: the scheme and the credentials. -/
def parseOutbound (urlString : String) : Except String ParsedUrl :=
  match parser.parse urlString none with
  | none => .error ("Invalid URL: " ++ urlString)
  | some parsed =>
    if parsed.protocol ≠ "http:" ∧ parsed.protocol ≠ "https:" then
      .error ("Blocked protocol: " ++ parsed.protocol ++ ". Only http: and https: are allowed.")
    else if parsed.username ≠ "" ∨ parsed.password ≠ "" then
      .error "URLs with embedded credentials are not allowed."
    else .ok parsed

def hostRefusal (parsed : ParsedUrl) : Option String :=
  let hostname := stripBrackets (Js.toLowerCase parsed.hostname)
  let bare := bareName hostname
  if addresses.isBlockedHostname hostname then some ("Blocked hostname: " ++ hostname)
  else if !addresses.isIP bare && ambiguousNumeric bare then
    some ("Blocked ambiguous numeric host: " ++ hostname)
  else
    match addresses.blocked hostname with
    | some metadata =>
      some ((if metadata then "Blocked cloud metadata endpoint: "
        else "Blocked private/reserved IP: ") ++ hostname)
    | none =>
      let port := parsed.port.getD (if parsed.protocol = "https:" then 443 else 80)
      if INTERNAL_ONLY_PORTS.contains port && isLikelyInternal addresses bare then
        some ("Blocked internal service port " ++ toString port ++ " on " ++ hostname)
      else none

def validateUrl (urlString : String) : UrlValidationResult :=
  match parseOutbound parser urlString with
  | .error error => .error error
  | .ok parsed =>
    match hostRefusal addresses parsed with
    | some error => .error error
    | none => .ok parsed.href

def validateUrlAllowingPrivate (urlString : String) : UrlValidationResult :=
  (parseOutbound parser urlString).map (·.href)

end

end Almyty.Security
