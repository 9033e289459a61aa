import Almyty.Lib.Loop
import Almyty.Security.UrlValidator

/-!
# A guarded request and its redirects: `common/security/safe-fetch.ts`

`safeFetch` puts the gate before each request of a chain of redirects. It never lets the transport
follow one: a redirect is taken in the loop, its target goes through the gate, and where it is of
another origin the headers bound to the origin are dropped, for the rest of the chain.

What the loop did is kept as `Event`s, a gate's answer or a request. `redirects_safe` reads the
three guarantees off them.

Mirroring notes:
- What answers is `fetch`, any function of the number of the request and the request; `none` is a
  failure of the transport. Of a response the status, the location and the declared length are read.
-/

namespace Almyty.Security

open Almyty.Lib List

/-! ## Headers -/

inductive HeadersInit
  | headers (entries : List (String × String))
  | pairs (entries : List (String × String))
  | record (fields : List (String × String))

def HeadersInit.entries : HeadersInit → List (String × String)
  | .headers entries | .pairs entries | .record entries => entries

def appendHeader (headers : List (String × String)) (e : String × String) :
    List (String × String) :=
  let name := Js.toLowerCase e.1
  match headers.lookup name with
  | some value => Assoc.put headers name (value ++ ", " ++ e.2)
  | none => headers ++ [(name, e.2)]

def newHeaders (init : Option HeadersInit) : List (String × String) :=
  ((init.map (·.entries)).getD []).foldl appendHeader []

def ORIGIN_BOUND_HEADERS : List String := ["authorization", "cookie", "proxy-authorization"]

def withoutOriginBoundHeaders (headers : Option HeadersInit) : HeadersInit :=
  .headers (ORIGIN_BOUND_HEADERS.foldl (fun out name => out.filter (·.1 ≠ name))
    (newHeaders headers))

/-! ## Requests -/

/-- What a redirect answer does; none is followed by the transport. -/
inductive RedirectMode
  | manual | error

structure Request where
  url : String
  method : Option String
  body : Option String
  headers : Option HeadersInit
  redirect : RedirectMode

def Request.carries (request : Request) (name : String) : Prop :=
  ∃ e ∈ (request.headers.map (·.entries)).getD [], Js.toLowerCase e.1 = name

structure Response where
  status : Nat
  location : Option String := none
  /-- `Number(headers.get('content-length'))`, when finite. -/
  contentLength : Option Nat := none

inductive FetchError
  /-- `EgressError`. -/
  | refused (message : String)
  | tooLarge (maxBytes : Nat)
  | transport

def MAX_REDIRECT_HOPS : Nat := 5

structure SafeFetchInit where
  method : Option String := none
  body : Option String := none
  headers : Option HeadersInit := none
  maxBytes : Nat := 10 * 1024 * 1024
  maxRedirects : Nat := 0
  privateHost : Option String := none

inductive Event
  | gate (target : String) (verdict : UrlValidationResult)
  | request (request : Request)

def requests (events : List Event) : List Request :=
  events.filterMap fun
    | .request request => some request
    | .gate _ _ => none

/-- How a chain ended, and what was done. -/
structure FetchEnd where
  result : Except FetchError Response
  events : List Event

/-- The variables of the loop. -/
structure FetchState where
  hop : Nat
  current : String
  method : Option String
  body : Option String
  headers : Option HeadersInit
  events : List Event

def capResponse (res : Response) (maxBytes : Nat) : Except FetchError Response :=
  if res.contentLength.any (maxBytes < ·) then .error (.tooLarge maxBytes) else .ok res

section

variable (parser : UrlParser) (addresses : Addresses) (fetch : Nat → Request → Option Response)
  (init : SafeFetchInit)

/-- `rawPrivateHost ? stripBrackets(rawPrivateHost.toLowerCase()) : null`. -/
def SafeFetchInit.privateName : Option String :=
  (init.privateHost.filter (· ≠ "")).map fun host => stripBrackets (Js.toLowerCase host)

def SafeFetchInit.hops : Nat := min init.maxRedirects MAX_REDIRECT_HOPS

def gateHop (privateHost : Option String) (url : String) : UrlValidationResult :=
  match parser.parse url none with
  | none => .error ("Refused to request " ++ url ++ ": not a URL")
  | some parsed =>
    let host := stripBrackets (Js.toLowerCase parsed.hostname)
    if (privateHost.filter (· ≠ "")) = some host then validateUrlAllowingPrivate parser url
    else validateUrl parser addresses url

def originOf (url : String) : Option String := (parser.parse url none).map (·.origin)

/-- `303` always, and `301` or `302` after a POST, continue as a GET. -/
def continuesAsGet (status : Nat) (method : Option String) : Bool :=
  status = 303 || ((status = 301 || status = 302) && Js.toUpperCase (method.getD "GET") = "POST")

def FetchState.request (s : FetchState) : Request where
  url := s.current
  method := s.method
  body := s.body
  headers := s.headers
  redirect := if 0 < init.hops then .manual else .error

/-- One request of the chain, and where it goes on. -/
def hopTurn (s : FetchState) : Loop.Turn FetchState FetchEnd :=
  let events := s.events ++ [.request (s.request init)]
  match fetch s.hop (s.request init) with
  | none => .done ⟨.error .transport, events⟩
  | some res =>
    let location :=
      if 0 < init.hops ∧ 300 ≤ res.status ∧ res.status < 400 then res.location.filter (· ≠ "")
      else none
    match location with
    | none => .done ⟨capResponse res init.maxBytes, events⟩
    | some location =>
      if init.hops ≤ s.hop then
        .done ⟨.error (.refused ("Refused to follow more than " ++ toString init.hops ++
          " redirects")), events⟩
      else
        match parser.parse location (some s.current) with
        | none => .done ⟨.error (.refused "Refused to follow a redirect: Invalid URL"), events⟩
        | some target =>
          let verdict := gateHop parser addresses init.privateName target.href
          let events := events ++ [.gate target.href verdict]
          match verdict with
          | .error message =>
            .done ⟨.error (.refused ("Refused to follow a redirect: " ++ message)), events⟩
          | .ok next =>
            .again
              { hop := s.hop + 1
                current := next
                method :=
                  if continuesAsGet res.status s.method then
                    some (if Js.toUpperCase (s.method.getD "GET") = "HEAD" then "HEAD" else "GET")
                  else s.method
                body := if continuesAsGet res.status s.method then none else s.body
                headers :=
                  if originOf parser next ≠ originOf parser s.current then
                    some (withoutOriginBoundHeaders s.headers)
                  else s.headers
                events }

def safeFetch (fuel : Nat) (urlString : String) : Option FetchEnd :=
  let verdict := gateHop parser addresses init.privateName urlString
  match verdict with
  | .error message => some ⟨.error (.refused message), [.gate urlString verdict]⟩
  | .ok current =>
    Loop.run (hopTurn parser addresses fetch init) fuel
      { hop := 0, current, method := init.method, body := init.body, headers := init.headers
        events := [.gate urlString verdict] }

end

/-! ## Clean headers -/

def CleanHeaders (headers : Option HeadersInit) : Prop :=
  ∀ e ∈ (headers.map (·.entries)).getD [], Js.toLowerCase e.1 ∉ ORIGIN_BOUND_HEADERS

theorem appendHeader_lower {headers : List (String × String)}
    (h : ∀ e ∈ headers, Js.toLowerCase e.1 = e.1) (e : String × String) :
    ∀ e' ∈ appendHeader headers e, Js.toLowerCase e'.1 = e'.1 := by
  intro e' he'
  unfold appendHeader at he'
  dsimp only at he'
  split at he'
  · rcases Assoc.mem_put he' with rfl | hmem
    · exact Js.toLowerCase_toLowerCase _
    · exact h e' hmem
  · rcases mem_append.mp he' with hmem | hmem
    · exact h e' hmem
    · obtain rfl := mem_singleton.mp hmem
      exact Js.toLowerCase_toLowerCase _

theorem newHeaders_lower (init : Option HeadersInit) :
    ∀ e ∈ newHeaders init, Js.toLowerCase e.1 = e.1 := by
  unfold newHeaders
  suffices h : ∀ (entries headers : List (String × String)),
      (∀ e ∈ headers, Js.toLowerCase e.1 = e.1) →
        ∀ e ∈ entries.foldl appendHeader headers, Js.toLowerCase e.1 = e.1 from
    h _ [] fun _ hmem => absurd hmem not_mem_nil
  intro entries
  induction entries with
  | nil => exact fun _ h => h
  | cons e entries ih => exact fun headers h => ih _ (appendHeader_lower h e)

theorem mem_deleted {names : List String} {headers : List (String × String)}
    {e : String × String}
    (h : e ∈ names.foldl (fun out name => out.filter (·.1 ≠ name)) headers) :
    e ∈ headers ∧ e.1 ∉ names := by
  induction names generalizing headers with
  | nil => exact ⟨h, not_mem_nil⟩
  | cons name names ih =>
    obtain ⟨hmem, hnames⟩ := ih h
    obtain ⟨hheaders, hne⟩ := mem_filter.mp hmem
    exact ⟨hheaders, not_mem_cons_of_ne_of_not_mem (of_decide_eq_true hne) hnames⟩

theorem withoutOriginBoundHeaders_clean (headers : Option HeadersInit) :
    CleanHeaders (some (withoutOriginBoundHeaders headers)) := by
  intro e he
  obtain ⟨hheaders, hnames⟩ := mem_deleted he
  rwa [newHeaders_lower headers e hheaders]

theorem CleanHeaders.not_carries {request : Request} (h : CleanHeaders request.headers)
    {name : String} (hname : name ∈ ORIGIN_BOUND_HEADERS) : ¬request.carries name := by
  rintro ⟨e, he, rfl⟩
  exact h e he hname

/-! ## The chain -/

section

variable (parser : UrlParser) (addresses : Addresses) (privateHost : Option String)

/-- Right before each request the gate let its URL through. -/
def Gated (events : List Event) : Prop :=
  ∀ before request after, events = before ++ .request request :: after →
    ∃ earlier target, before = earlier ++ [.gate target (.ok request.url)] ∧
      gateHop parser addresses privateHost target = .ok request.url

def OriginChanges (urls : List String) : Prop :=
  ∃ before a b after, urls = before ++ a :: b :: after ∧ originOf parser a ≠ originOf parser b

/-- From a request of another origin on, none carries a header bound to an origin. -/
def Stripped (sent : List Request) : Prop :=
  ∀ before a b after, sent = before ++ a :: b :: after →
    originOf parser a.url ≠ originOf parser b.url →
      ∀ request ∈ b :: after, ∀ name ∈ ORIGIN_BOUND_HEADERS, ¬request.carries name

structure SafeChain (init : SafeFetchInit) (events : List Event) : Prop where
  bounded : (requests events).length ≤ min init.maxRedirects MAX_REDIRECT_HOPS + 1
  gated : Gated parser addresses init.privateName events
  stripped : Stripped parser (requests events)

structure Following (init : SafeFetchInit) (s : FetchState) : Prop where
  counted : (requests s.events).length = s.hop
  within : s.hop ≤ init.hops
  gatedNow : ∃ earlier target, s.events = earlier ++ [.gate target (.ok s.current)] ∧
    gateHop parser addresses init.privateName target = .ok s.current
  gated : Gated parser addresses init.privateName s.events
  clean : OriginChanges parser ((requests s.events).map (·.url) ++ [s.current]) →
    CleanHeaders s.headers
  stripped : Stripped parser (requests s.events)

end

section

variable {parser : UrlParser} {addresses : Addresses} {privateHost : Option String}

theorem split_concat {α : Type} {l before after : List α} {x y : α}
    (h : l ++ [x] = before ++ y :: after) :
    (after = [] ∧ l = before ∧ x = y) ∨ ∃ after', after = after' ++ [x] ∧ l = before ++ y :: after' := by
  rcases eq_nil_or_concat after with rfl | ⟨after', z, hafter⟩
  · obtain ⟨hl, hx⟩ := append_inj' h rfl
    exact .inl ⟨rfl, hl, List.cons.inj hx |>.1⟩
  · rw [concat_eq_append] at hafter
    subst hafter
    rw [← cons_append, ← append_assoc] at h
    obtain ⟨hl, hx⟩ := append_inj' h rfl
    obtain rfl := (List.cons.inj hx).1
    exact .inr ⟨after', rfl, hl⟩

theorem Gated.append_request {events : List Event} {request : Request}
    (h : Gated parser addresses privateHost events)
    (hnow : ∃ earlier target, events = earlier ++ [.gate target (.ok request.url)] ∧
      gateHop parser addresses privateHost target = .ok request.url) :
    Gated parser addresses privateHost (events ++ [.request request]) := by
  intro before request' after heq
  rcases split_concat heq with ⟨-, rfl, hsame⟩ | ⟨after', -, hevents⟩
  · cases hsame
    exact hnow
  · exact h before request' after' hevents

theorem Gated.append_gate {events : List Event} (h : Gated parser addresses privateHost events)
    (target : String) (verdict : UrlValidationResult) :
    Gated parser addresses privateHost (events ++ [.gate target verdict]) := by
  intro before request after heq
  rcases split_concat heq with ⟨-, -, hsame⟩ | ⟨after', -, hevents⟩
  · cases hsame
  · exact h before request after' hevents

theorem Stripped.append {sent : List Request} {request : Request} (h : Stripped parser sent)
    (hclean : OriginChanges parser (sent.map (·.url) ++ [request.url]) →
      CleanHeaders request.headers) : Stripped parser (sent ++ [request]) := by
  intro before a b after heq hchange
  have hchanges : OriginChanges parser ((sent ++ [request]).map (·.url)) :=
    ⟨before.map (·.url), a.url, b.url, after.map (·.url), by rw [heq]; simp, hchange⟩
  rw [map_append] at hchanges
  have hlast : ∀ name ∈ ORIGIN_BOUND_HEADERS, ¬request.carries name :=
    fun _ hname => (hclean hchanges).not_carries hname
  have hsplit : sent ++ [request] = (before ++ [a]) ++ b :: after := by
    rw [heq, append_assoc]
    rfl
  rcases split_concat hsplit with ⟨rfl, -, rfl⟩ | ⟨after', rfl, hsent⟩
  · intro r hr
    obtain rfl := mem_singleton.mp hr
    exact hlast
  · intro r hr
    rw [← cons_append, mem_append, mem_singleton] at hr
    rcases hr with hr | rfl
    · rw [append_assoc] at hsent
      exact h before a b after' hsent hchange r hr
    · exact hlast

@[simp] theorem requests_append_request (events : List Event) (request : Request) :
    requests (events ++ [.request request]) = requests events ++ [request] := by
  simp [requests]

@[simp] theorem requests_append_gate (events : List Event) (target : String)
    (verdict : UrlValidationResult) :
    requests (events ++ [.gate target verdict]) = requests events := by
  simp [requests]

theorem OriginChanges.of_append {urls : List String} {a b : String}
    (h : OriginChanges parser ((urls ++ [a]) ++ [b])) :
    OriginChanges parser (urls ++ [a]) ∨ originOf parser a ≠ originOf parser b := by
  obtain ⟨before, x, y, after, heq, hchange⟩ := h
  have hsplit : (urls ++ [a]) ++ [b] = (before ++ [x]) ++ y :: after := by
    rw [heq, append_assoc]
    rfl
  rcases split_concat hsplit with ⟨-, hsame, rfl⟩ | ⟨after', -, hurls⟩
  · obtain ⟨-, hx⟩ := append_inj' hsame rfl
    obtain rfl := (List.cons.inj hx).1
    exact .inr hchange
  · rw [append_assoc] at hurls
    exact .inl ⟨before, x, y, after', hurls, hchange⟩

end

/-! ## One turn -/

section

variable {parser : UrlParser} {addresses : Addresses} {fetch : Nat → Request → Option Response}
  {init : SafeFetchInit}

variable {s : FetchState}

theorem hopTurn_done {chain : FetchEnd} (h : hopTurn parser addresses fetch init s = .done chain) :
    chain.events = s.events ++ [.request (s.request init)] ∨
      ∃ target verdict,
        chain.events = s.events ++ [.request (s.request init)] ++ [.gate target verdict] := by
  unfold hopTurn at h
  cases hfetch : fetch s.hop (s.request init) with
  | none =>
    rw [hfetch] at h
    cases h
    exact .inl rfl
  | some res =>
    rw [hfetch] at h
    dsimp only at h
    split at h
    · cases h
      exact .inl rfl
    next location _ =>
    split at h
    · cases h
      exact .inl rfl
    cases htarget : parser.parse location (some s.current) with
    | none =>
      rw [htarget] at h
      cases h
      exact .inl rfl
    | some target =>
      rw [htarget] at h
      dsimp only at h
      split at h
      · cases h
        exact .inr ⟨_, _, rfl⟩
      · cases h

theorem hopTurn_again {s' : FetchState} (h : hopTurn parser addresses fetch init s = .again s') :
    s.hop < init.hops ∧ s'.hop = s.hop + 1 ∧
    (∃ target, s'.events =
        s.events ++ [.request (s.request init)] ++ [.gate target (.ok s'.current)] ∧
      gateHop parser addresses init.privateName target = .ok s'.current) ∧
    s'.headers = if originOf parser s'.current ≠ originOf parser s.current then
      some (withoutOriginBoundHeaders s.headers) else s.headers := by
  unfold hopTurn at h
  cases hfetch : fetch s.hop (s.request init) with
  | none =>
    rw [hfetch] at h
    cases h
  | some res =>
    rw [hfetch] at h
    dsimp only at h
    split at h
    · cases h
    next location _ =>
    split at h
    · cases h
    next hroom =>
    cases htarget : parser.parse location (some s.current) with
    | none =>
      rw [htarget] at h
      cases h
    | some target =>
      rw [htarget] at h
      dsimp only at h
      split at h
      · cases h
      · next hverdict =>
        cases h
        exact ⟨Nat.not_le.mp hroom, rfl, ⟨target.href, by rw [hverdict], hverdict⟩, rfl⟩

theorem Following.requested (h : Following parser addresses init s) :
    Gated parser addresses init.privateName (s.events ++ [.request (s.request init)]) ∧
    Stripped parser (requests s.events ++ [s.request init]) ∧
    (requests s.events ++ [s.request init]).length = s.hop + 1 :=
  ⟨h.gated.append_request h.gatedNow, h.stripped.append h.clean, by
    rw [length_append, length_singleton, h.counted]⟩

theorem following_done {chain : FetchEnd} (h : Following parser addresses init s)
    (hturn : hopTurn parser addresses fetch init s = .done chain) :
    SafeChain parser addresses init chain.events := by
  obtain ⟨hgated, hstripped, hlength⟩ := h.requested
  have hwithin := h.within
  rcases hopTurn_done hturn with hevents | ⟨target, verdict, hevents⟩
  · rw [hevents]
    refine ⟨?_, hgated, ?_⟩
    · rw [requests_append_request, hlength]
      exact Nat.succ_le_succ hwithin
    · rwa [requests_append_request]
  · rw [hevents]
    refine ⟨?_, hgated.append_gate target verdict, ?_⟩
    · rw [requests_append_gate, requests_append_request, hlength]
      exact Nat.succ_le_succ hwithin
    · rwa [requests_append_gate, requests_append_request]

/-- **One hop keeps the chain safe**: a change of origin cleans the headers. -/
theorem following_again {s' : FetchState} (h : Following parser addresses init s)
    (hturn : hopTurn parser addresses fetch init s = .again s') :
    Following parser addresses init s' ∧ init.hops - s'.hop < init.hops - s.hop := by
  obtain ⟨hgated, hstripped, hlength⟩ := h.requested
  obtain ⟨hroom, hhop, ⟨target, hevents, hgate⟩, hheaders⟩ := hopTurn_again hturn
  have hrequests : requests s'.events = requests s.events ++ [s.request init] := by
    rw [hevents, requests_append_gate, requests_append_request]
  refine ⟨⟨?_, by omega, ⟨_, target, hevents, hgate⟩, ?_, ?_, ?_⟩, by omega⟩
  · rw [hrequests, hlength, hhop]
  · rw [hevents]
    exact hgated.append_gate _ _
  · rw [hrequests, map_append, hheaders]
    intro hchanges
    split
    · exact withoutOriginBoundHeaders_clean s.headers
    · next hsame =>
      rcases OriginChanges.of_append hchanges with hbefore | hnow
      · exact h.clean hbefore
      · exact absurd hnow.symm hsame
  · rwa [hrequests]

theorem following_start {urlString current : String}
    (h : gateHop parser addresses init.privateName urlString = .ok current) :
    Following parser addresses init
      { hop := 0, current, method := init.method, body := init.body, headers := init.headers
        events := [.gate urlString (.ok current)] } where
  counted := rfl
  within := Nat.zero_le _
  gatedNow := ⟨[], urlString, rfl, h⟩
  gated := fun before request after heq => by
    rcases split_concat (l := []) heq with ⟨-, -, hsame⟩ | ⟨after', -, hnil⟩
    · cases hsame
    · exact absurd hnil.symm (by simp)
  clean := fun hchanges => by
    obtain ⟨before, a, b, after, heq, -⟩ := hchanges
    exact absurd (congrArg List.length heq) (by simp [requests]; omega)
  stripped := fun before a b after heq => absurd heq (by simp [requests])

/-- **Redirects are followed safely**: so many requests at most, each behind the gate, and none with
a header bound to another origin. -/
theorem redirects_safe (parser : UrlParser) (addresses : Addresses)
    (fetch : Nat → Request → Option Response) (init : SafeFetchInit) (urlString : String)
    (n : Nat) :
    ∃ chain, safeFetch parser addresses fetch init (init.hops + 1 + n) urlString = some chain ∧
      SafeChain parser addresses init chain.events := by
  unfold safeFetch
  cases hgate : gateHop parser addresses init.privateName urlString with
  | error message =>
    refine ⟨_, rfl, ?_, ?_, ?_⟩
    · exact Nat.zero_le _
    · intro before request after heq
      rcases split_concat (l := []) heq with ⟨-, -, hsame⟩ | ⟨after', -, hnil⟩
      · cases hsame
      · exact absurd hnil.symm (by simp)
    · exact fun before a b after heq => absurd heq (by simp [requests])
  | ok current =>
    exact Loop.run_spec (Following parser addresses init) (fun s => init.hops - s.hop)
      (fun chain => SafeChain parser addresses init chain.events)
      (fun _ _ h hturn => following_again h hturn) (fun _ _ h hturn => following_done h hturn)
      (following_start hgate) (by show init.hops - 0 < init.hops + 1 + n; omega)

end

end Almyty.Security
