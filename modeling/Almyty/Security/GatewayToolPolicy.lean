import Almyty.Lib.JsText

/-!
# A gateway tool's security policy: `common/security/gateway-tool-policy.ts`

A gateway tool's policy is a JSON column: domains the tool may call and may never call, the methods
it may use, and whether it must use HTTPS. `decideToolRequest` reads it for the executors, one
request at a time; `sandboxHostPolicy` cuts it down to what a sandboxed tool's own traffic is held
to.

The two read the column differently. An entry counts for the first when it is not the empty text and
for the second when it is not blank; `requireHttps` counts for the first when it counts as true and
for the second when it is `true`. `decideToolRequest_iff` puts the first in the terms of the second:
`RuleRefuses` and `ListsRefuse` are what both read, `Overread` is what only the first takes for a
restriction.

Mirroring notes:
- A request is its parsed URL and its method; a method is not blank.
- `toLowerCase` and `toUpperCase` are the engine's (`Casing`), with the laws used.
-/

namespace Almyty.Security

open Almyty.Lib

structure Casing where
  lower : String → String
  upper : String → String
  lower_empty : lower "" = ""
  lower_lower : ∀ s, lower (lower s) = lower s
  upper_empty : upper "" = ""
  upper_trimmed : ∀ s, upper (Js.trimmed (upper (Js.trimmed s))) = upper (Js.trimmed s)
  trimmed_upper : ∀ s, Js.trimmed s ≠ "" → Js.trimmed (upper (Js.trimmed s)) ≠ ""

def Casing.settled : Casing where
  lower := id
  upper := id
  lower_empty := rfl
  lower_lower _ := rfl
  upper_empty := rfl
  upper_trimmed s := by simp
  trimmed_upper s h := by simpa using h

structure GatewayToolSecurityPolicy where
  allowedDomains : List String := []
  blockedDomains : List String := []
  allowedHttpMethods : List String := []
  requireHttps : Option Json := none

/-- A parsed URL, as far as the policy reads it. -/
structure Url where
  hostname : String
  protocol : String

structure Method where
  text : String
  nonblank : Js.trimmed text ≠ ""

theorem get_nonblank : Js.trimmed "GET" ≠ "" := by decide

def stripLast (c : Char) (text : String) : String :=
  if text.toList.getLast? = some c then String.ofList text.toList.dropLast else text

section

variable (casing : Casing)

def domainMatches (host pattern : String) : Bool :=
  let h := (stripLast '.' (casing.lower host)).toList
  let p := (stripLast '.' (casing.lower (Js.trimmed pattern))).toList
  if h.isEmpty || p.isEmpty then false
  else if "*.".toList.isPrefixOf p then
    let suffix := p.drop 1
    suffix.isSuffixOf h && h.length > suffix.length
  else h == p || ('.' :: p).isSuffixOf h

def scheme (url : Url) : String := casing.lower (stripLast ':' url.protocol)

/-- `m.trim().toUpperCase()`. -/
def methodName (text : String) : String := casing.upper (Js.trimmed text)

def decideToolRequest (policy : GatewayToolSecurityPolicy) (url : Url) (method : Method) :
    Option String :=
  let host := url.hostname
  let blocked := policy.blockedDomains.filter (· ≠ "")
  let allowed := policy.allowedDomains.filter (· ≠ "")
  let methods := (policy.allowedHttpMethods.filter (· ≠ "")).map (methodName casing)
  if policy.requireHttps.any Json.truthy && scheme casing url ≠ "https" then
    some ("this tool's security policy requires HTTPS; the request targets " ++
      scheme casing url ++ "://" ++ host)
  -- a blocked domain wins over an allowed one
  else if blocked.any (domainMatches casing host) then
    some (host ++ " is on this tool's blocked-domain list")
  else if allowed ≠ [] && !allowed.any (domainMatches casing host) then
    some (host ++ " is not on this tool's allowed-domain list")
  else if methods ≠ [] && !methods.contains (methodName casing method.text) then
    some (casing.upper method.text ++ " is not an allowed method for this tool (allowed: " ++
      ", ".intercalate methods ++ ")")
  else none

/-- What a sandboxed tool's own traffic is held to. -/
structure SandboxNetPolicy where
  allowedDomains : List String := []
  blockedDomains : List String := []
  requireHttps : Bool := false
  allowedHttpMethods : List String := []

def nonblank (entries : List String) : List String := entries.filter (Js.trimmed · ≠ "")

def sandboxHostPolicy (policy : GatewayToolSecurityPolicy) : Option SandboxNetPolicy :=
  let allowedDomains := nonblank policy.allowedDomains
  let blockedDomains := nonblank policy.blockedDomains
  let requireHttps := policy.requireHttps = some (.bool true)
  let allowedHttpMethods := (nonblank policy.allowedHttpMethods).map (methodName casing)
  if allowedDomains = [] ∧ blockedDomains = [] ∧ ¬requireHttps ∧ allowedHttpMethods = [] then none
  else some { allowedDomains, blockedDomains, requireHttps, allowedHttpMethods }

/-! ## What both read, and what only one does -/

def RuleRefuses (policy : GatewayToolSecurityPolicy) (url : Url) (method : Method) : Prop :=
  (policy.requireHttps = some (.bool true) ∧ scheme casing url ≠ "https") ∨
    (nonblank policy.allowedHttpMethods ≠ [] ∧
      methodName casing method.text
        ∉ (nonblank policy.allowedHttpMethods).map (methodName casing))

def ListsRefuse (policy : GatewayToolSecurityPolicy) (host : String) : Prop :=
  (nonblank policy.blockedDomains).any (domainMatches casing host) = true ∨
    (nonblank policy.allowedDomains ≠ [] ∧
      (nonblank policy.allowedDomains).any (domainMatches casing host) = false)

def OnlyBlanks (entries : List String) : Prop :=
  nonblank entries = [] ∧ entries.filter (· ≠ "") ≠ []

/-- Settings that only `decideToolRequest` reads as restrictions: a `requireHttps` that
counts as true but is not `true`, and lists of blanks. -/
def Overread (policy : GatewayToolSecurityPolicy) (url : Url) : Prop :=
  (policy.requireHttps.any Json.truthy = true ∧ policy.requireHttps ≠ some (.bool true) ∧
      scheme casing url ≠ "https") ∨
    OnlyBlanks policy.allowedDomains ∨ OnlyBlanks policy.allowedHttpMethods

end

section

variable {casing : Casing}

theorem trimmed_empty : Js.trimmed "" = "" := by decide

theorem domainMatches_blank (host : String) {pattern : String} (h : Js.trimmed pattern = "") :
    domainMatches casing host pattern = false := by
  have hempty : (stripLast '.' (casing.lower (Js.trimmed pattern))).toList = [] := by
    rw [h, casing.lower_empty]
    decide
  simp [domainMatches, hempty]

theorem nonblank_eq (entries : List String) :
    nonblank entries = (entries.filter (· ≠ "")).filter (Js.trimmed · ≠ "") := by
  rw [List.filter_filter, nonblank]
  refine List.filter_congr fun entry _ => ?_
  by_cases hempty : entry = ""
  · simp [hempty, trimmed_empty]
  · simp [hempty]

theorem any_nonblank (host : String) (entries : List String) :
    (nonblank entries).any (domainMatches casing host)
      = (entries.filter (· ≠ "")).any (domainMatches casing host) := by
  rw [nonblank_eq, List.any_filter]
  congr 1
  funext entry
  by_cases hblank : Js.trimmed entry = ""
  · rw [domainMatches_blank host hblank, Bool.and_false]
  · rw [decide_eq_true hblank, Bool.true_and]

theorem nonblank_sublist (entries : List String) :
    (nonblank entries).Sublist (entries.filter (· ≠ "")) := by
  rw [nonblank_eq]
  exact List.filter_sublist

theorem filter_ne_nil_iff (entries : List String) :
    entries.filter (· ≠ "") ≠ [] ↔ nonblank entries ≠ [] ∨ OnlyBlanks entries := by
  constructor
  · intro h
    by_cases hkept : nonblank entries = []
    · exact .inr ⟨hkept, h⟩
    · exact .inl hkept
  · rintro (h | h)
    · intro hnil
      exact h (List.sublist_nil.mp (hnil ▸ nonblank_sublist entries))
    · exact h.2

theorem methodName_ne_blank (method : Method) {entry : String} (h : Js.trimmed entry = "") :
    methodName casing method.text ≠ methodName casing entry := by
  intro heq
  have hempty : methodName casing entry = "" := by
    rw [methodName, h, casing.upper_empty]
  refine casing.trimmed_upper method.text method.nonblank ?_
  show Js.trimmed (methodName casing method.text) = ""
  rw [heq, hempty, trimmed_empty]

theorem mem_methods_iff (method : Method) (entries : List String) :
    methodName casing method.text ∈ (entries.filter (· ≠ "")).map (methodName casing) ↔
      methodName casing method.text ∈ (nonblank entries).map (methodName casing) := by
  constructor
  · intro h
    obtain ⟨entry, hentry, heq⟩ := List.mem_map.mp h
    have hkept : Js.trimmed entry ≠ "" := fun hblank => methodName_ne_blank method hblank heq.symm
    refine List.mem_map.mpr ⟨entry, List.mem_filter.mpr ⟨(List.mem_filter.mp hentry).1, ?_⟩, heq⟩
    exact decide_eq_true hkept
  · intro h
    obtain ⟨entry, hentry, heq⟩ := List.mem_map.mp h
    exact List.mem_map.mpr ⟨entry, (nonblank_sublist entries).subset hentry, heq⟩

theorem decideToolRequest_isSome (policy : GatewayToolSecurityPolicy) (url : Url)
    (method : Method) :
    (decideToolRequest casing policy url method).isSome = true ↔
      (policy.requireHttps.any Json.truthy = true ∧ scheme casing url ≠ "https") ∨
      (policy.blockedDomains.filter (· ≠ "")).any (domainMatches casing url.hostname) = true ∨
      (policy.allowedDomains.filter (· ≠ "") ≠ [] ∧
        (policy.allowedDomains.filter (· ≠ "")).any (domainMatches casing url.hostname) = false) ∨
      (policy.allowedHttpMethods.filter (· ≠ "") ≠ [] ∧ methodName casing method.text
        ∉ (policy.allowedHttpMethods.filter (· ≠ "")).map (methodName casing)) := by
  unfold decideToolRequest
  dsimp only
  split
  · next h =>
    simp only [Bool.and_eq_true, decide_eq_true_eq] at h
    exact iff_of_true rfl (.inl h)
  next hscheme =>
  split
  · next h => exact iff_of_true rfl (.inr (.inl h))
  next hblocked =>
  split
  · next h =>
    simp only [Bool.and_eq_true, decide_eq_true_eq, Bool.not_eq_true'] at h
    exact iff_of_true rfl (.inr (.inr (.inl h)))
  next hallowed =>
  split
  · next h =>
    simp only [Bool.and_eq_true, decide_eq_true_eq, Bool.not_eq_true', ne_eq, List.map_eq_nil_iff,
      List.contains_eq_mem, decide_eq_false_iff_not] at h
    exact iff_of_true rfl (.inr (.inr (.inr h)))
  next hmethod =>
  refine iff_of_false (by simp) ?_
  rintro (h | h | h | h)
  · exact hscheme (by simpa using h)
  · exact hblocked h
  · exact hallowed (by simpa using h)
  · exact hmethod (by simpa using h)

/-- **What `decideToolRequest` refuses**: what the settings that are not blank refuse. -/
theorem decideToolRequest_iff (policy : GatewayToolSecurityPolicy) (url : Url) (method : Method) :
    (decideToolRequest casing policy url method).isSome = true ↔
      RuleRefuses casing policy url method ∨ ListsRefuse casing policy url.hostname ∨
        Overread casing policy url := by
  rw [decideToolRequest_isSome, mem_methods_iff, ← any_nonblank, ← any_nonblank,
    filter_ne_nil_iff, filter_ne_nil_iff, RuleRefuses, ListsRefuse, Overread]
  have hallowed : OnlyBlanks policy.allowedDomains →
      (nonblank policy.allowedDomains).any (domainMatches casing url.hostname) = false := by
    intro h
    rw [h.1]
    rfl
  have hmethods : OnlyBlanks policy.allowedHttpMethods → methodName casing method.text
      ∉ (nonblank policy.allowedHttpMethods).map (methodName casing) := by
    intro h
    rw [h.1]
    exact List.not_mem_nil
  have htrue : policy.requireHttps = some (.bool true) →
      policy.requireHttps.any Json.truthy = true := by
    intro h
    rw [h]
    rfl
  constructor
  · rintro (⟨htruthy, hscheme⟩ | hblocked | ⟨hne, hno⟩ | ⟨hne, hno⟩)
    · by_cases h : policy.requireHttps = some (.bool true)
      · exact .inl (.inl ⟨h, hscheme⟩)
      · exact .inr (.inr (.inl ⟨htruthy, h, hscheme⟩))
    · exact .inr (.inl (.inl hblocked))
    · rcases hne with hne | hblank
      · exact .inr (.inl (.inr ⟨hne, hno⟩))
      · exact .inr (.inr (.inr (.inl hblank)))
    · rcases hne with hne | hblank
      · exact .inl (.inr ⟨hne, hno⟩)
      · exact .inr (.inr (.inr (.inr hblank)))
  · rintro ((⟨h, hscheme⟩ | h) | (h | h) | ⟨htruthy, -, hscheme⟩ | hblank | hblank)
    · exact .inl ⟨htrue h, hscheme⟩
    · exact .inr (.inr (.inr ⟨.inl h.1, h.2⟩))
    · exact .inr (.inl h)
    · exact .inr (.inr (.inl ⟨.inl h.1, h.2⟩))
    · exact .inl ⟨htruthy, hscheme⟩
    · exact .inr (.inr (.inl ⟨.inr hblank, hallowed hblank⟩))
    · exact .inr (.inr (.inr ⟨.inr hblank, hmethods hblank⟩))

end

end Almyty.Security
