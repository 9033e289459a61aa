import Almyty.Security.GatewayToolPolicy

/-!
# The same policy inside the sandbox: `node-sandbox/sandbox-net-guard.ts`

A sandboxed tool makes its own connections. The guard patched into the worker holds each request to
the scheme and method rules where the request is made, and each connection to the domain lists where
the socket connects, over the floor of private addresses that holds whatever the policy is.

`requestRefusal_iff` says what the guard refuses of a policy's traffic: what the settings that are
not blank refuse, with the brackets of an IPv6 host taken off. `policy_read_alike_iff` compares that
with `decideToolRequest` and says for which requests the two agree.

Mirroring notes:
- The address classifier and the resolver are the network's (`Network`).
- The guard remembers the addresses that names it let through resolved to (`vetted`): a literal
  address among them passes the lists.
-/

namespace Almyty.Security

open Almyty.Lib Option

/-- The floor under every policy, and what names resolve to. -/
structure Network where
  isIP : String → Bool
  isBannedAddress : String → Bool
  isBlockedHostname : String → Bool
  isBannedAnswer : String → Bool
  lookup : String → List String

structure Guard where
  /-- The allowed and the blocked domains. -/
  hostPolicy : Option (List String × List String) := none
  transportPolicy : Option GatewayToolSecurityPolicy := none

def stripBrackets (host : String) : String :=
  if host.toList.head? = some '[' ∧ host.toList.getLast? = some ']' then
    String.ofList (host.toList.drop 1).dropLast
  else host

section

variable (casing : Casing)

def installSandboxNetGuard (hostPolicy : Option SandboxNetPolicy) : Guard :=
  let allowed := (hostPolicy.map (·.allowedDomains)).getD [] |>.filter (· ≠ "")
  let blocked := (hostPolicy.map (·.blockedDomains)).getD [] |>.filter (· ≠ "")
  let requireHttps := (hostPolicy.map (·.requireHttps)).getD false
  let allowedHttpMethods :=
    (nonblank ((hostPolicy.map (·.allowedHttpMethods)).getD [])).map (methodName casing)
  { hostPolicy := if allowed = [] ∧ blocked = [] then none else some (allowed, blocked)
    transportPolicy :=
      if requireHttps = false ∧ allowedHttpMethods = [] then none
      else some { requireHttps := some (.bool requireHttps), allowedHttpMethods } }

def policyRefusal (network : Network) (guard : Guard) (vetted : List String) (host : String) :
    Option String :=
  match guard.hostPolicy with
  | none => none
  | some (allowed, blocked) =>
    let h := stripBrackets (casing.lower host)
    if network.isIP h && vetted.contains h then none
    else if blocked.any (domainMatches casing h) then
      some "on this gateway tool's blocked-domain list"
    else if allowed ≠ [] && !allowed.any (domainMatches casing h) then
      some "not on this gateway tool's allowed-domain list"
    else none

/-- The scheme and method rules for one HTTP request. -/
def transportRefusal (guard : Guard) (url : Url) (method : Method) : Option String :=
  guard.transportPolicy.bind fun policy => decideToolRequest casing policy url method

/-- Resolving a name: the lists and the blocked names first, then the answers. -/
def lookupRefusal (network : Network) (guard : Guard) (vetted : List String) (hostname : String) :
    Option String :=
  let lowered := casing.lower hostname
  match policyRefusal casing network guard vetted lowered with
  | some reason => some reason
  | none =>
    if network.isBlockedHostname lowered then some "banned hostname"
    else if (network.lookup hostname).any network.isBannedAnswer then some "banned IP"
    else none

/-- The patched `connect`, of a TLS socket or a plain one. -/
def connectRefusal (network : Network) (guard : Guard) (vetted : List String) (host : String)
    (tls : Bool) : Option String :=
  if guard.transportPolicy.any (·.requireHttps.any Json.truthy) && !tls then
    some "this gateway tool requires HTTPS; a plaintext connection is refused"
  else
    match policyRefusal casing network guard vetted host with
    | some reason => some reason
    | none =>
      if network.isIP host then
        if network.isBannedAddress host then some "banned IP literal" else none
      else if network.isBlockedHostname (casing.lower host) then some "banned hostname"
      else lookupRefusal casing network guard vetted host

/-- A request and the connection it makes: to the host without brackets, over TLS when the
scheme is `https`. -/
def requestRefusal (network : Network) (guard : Guard) (vetted : List String) (url : Url)
    (method : Method) : Option String :=
  (transportRefusal casing guard url method).or
    (connectRefusal casing network guard vetted (stripBrackets url.hostname)
      (scheme casing url = "https"))

def guardHost (url : Url) : String := stripBrackets (casing.lower (stripBrackets url.hostname))

/-- The floor lets the host through: a public address, or a name that is not blocked and
resolves to public addresses. -/
def Reachable (network : Network) (host : String) : Prop :=
  if network.isIP host then network.isBannedAddress host = false
  else network.isBlockedHostname (casing.lower host) = false ∧
    (network.lookup host).any network.isBannedAnswer = false

end

section

variable {casing : Casing}

theorem filter_nonblank (entries : List String) :
    (nonblank entries).filter (· ≠ "") = nonblank entries := by
  refine List.filter_eq_self.mpr fun entry hentry => ?_
  have hkept := of_decide_eq_true (List.mem_filter.mp hentry).2
  refine decide_eq_true ?_
  rintro rfl
  exact hkept trimmed_empty

theorem nonblank_methodNames (entries : List String) :
    nonblank ((nonblank entries).map (methodName casing)) = (nonblank entries).map (methodName casing) := by
  refine List.filter_eq_self.mpr fun name hname => ?_
  obtain ⟨entry, hentry, rfl⟩ := List.mem_map.mp hname
  have hkept := of_decide_eq_true (List.mem_filter.mp hentry).2
  exact decide_eq_true (casing.trimmed_upper entry hkept)

theorem map_methodNames (entries : List String) :
    (entries.map (methodName casing)).map (methodName casing) = entries.map (methodName casing) := by
  rw [List.map_map]
  exact List.map_congr_left fun entry _ => casing.upper_trimmed entry

variable (casing)

theorem install_hostPolicy (policy : GatewayToolSecurityPolicy) :
    (installSandboxNetGuard casing (sandboxHostPolicy casing policy)).hostPolicy
      = if nonblank policy.allowedDomains = [] ∧ nonblank policy.blockedDomains = [] then none
        else some (nonblank policy.allowedDomains, nonblank policy.blockedDomains) := by
  unfold sandboxHostPolicy
  dsimp only
  split
  · next h => simp [installSandboxNetGuard, h.1, h.2.1]
  · simp only [installSandboxNetGuard, map_some, getD_some, filter_nonblank]

theorem install_transportPolicy (policy : GatewayToolSecurityPolicy) :
    (installSandboxNetGuard casing (sandboxHostPolicy casing policy)).transportPolicy
      = if policy.requireHttps ≠ some (.bool true) ∧ nonblank policy.allowedHttpMethods = [] then
          none
        else some {
          requireHttps := some (.bool (policy.requireHttps = some (.bool true)))
          allowedHttpMethods := (nonblank policy.allowedHttpMethods).map (methodName casing) } := by
  unfold sandboxHostPolicy
  dsimp only
  split
  · next h =>
    rw [if_pos ⟨h.2.2.1, List.map_eq_nil_iff.mp h.2.2.2⟩]
    simp [installSandboxNetGuard, nonblank]
  · simp only [installSandboxNetGuard, map_some, getD_some, nonblank_methodNames,
      map_methodNames, decide_eq_false_iff_not, List.map_eq_nil_iff, ne_eq]

theorem transportRefusal_iff (policy : GatewayToolSecurityPolicy) (url : Url) (method : Method) :
    (transportRefusal casing (installSandboxNetGuard casing (sandboxHostPolicy casing policy)) url
        method).isSome = true ↔ RuleRefuses casing policy url method := by
  rw [transportRefusal, install_transportPolicy]
  split
  · next h =>
    refine iff_of_false (by simp) ?_
    rintro (hhttps | hmethods)
    · exact h.1 hhttps.1
    · exact hmethods.1 h.2
  · rw [bind_some, decideToolRequest_iff, RuleRefuses, ListsRefuse, Overread]
    dsimp only
    rw [nonblank_methodNames, map_methodNames]
    have hempty : nonblank [] = [] := List.filter_nil
    have hlists : ¬OnlyBlanks [] := fun h => h.2 List.filter_nil
    have hmethods : ¬OnlyBlanks ((nonblank policy.allowedHttpMethods).map (methodName casing)) := by
      intro h
      rw [OnlyBlanks, nonblank_methodNames] at h
      exact h.2 (by rw [h.1, List.filter_nil])
    by_cases hhttps : policy.requireHttps = some (.bool true)
    · simp [hempty, hlists, hmethods, hhttps, RuleRefuses]
    · simp [hempty, hlists, hmethods, hhttps, RuleRefuses, Json.truthy]

/-- A literal address some name resolved to before. -/
def Vetted (network : Network) (vetted : List String) (host : String) : Prop :=
  network.isIP host = true ∧ host ∈ vetted

theorem policyRefusal_iff (network : Network) (vetted : List String)
    (policy : GatewayToolSecurityPolicy) (host : String)
    (hvetted : ¬Vetted network vetted (stripBrackets (casing.lower host))) :
    (policyRefusal casing network
        (installSandboxNetGuard casing (sandboxHostPolicy casing policy)) vetted host).isSome = true ↔
      ListsRefuse casing policy (stripBrackets (casing.lower host)) := by
  rw [policyRefusal, install_hostPolicy, ListsRefuse]
  have hopen : (network.isIP (stripBrackets (casing.lower host)) &&
      vetted.contains (stripBrackets (casing.lower host))) = false := by
    rw [Vetted] at hvetted
    simpa using hvetted
  by_cases hnone : nonblank policy.allowedDomains = [] ∧ nonblank policy.blockedDomains = []
  · rw [if_pos hnone, hnone.1, hnone.2]
    simp
  · rw [if_neg hnone]
    dsimp only
    rw [hopen, if_neg Bool.false_ne_true]
    split
    · next h => exact iff_of_true rfl (.inl h)
    next hblocked =>
    split
    · next h =>
      refine iff_of_true rfl (.inr ?_)
      simpa using h
    · next hallowed =>
      refine iff_of_false (by simp) ?_
      rintro (h | h)
      · exact hblocked h
      · exact hallowed (by simpa using h)

variable {policy : GatewayToolSecurityPolicy}

theorem connectRefusal_iff {network : Network} {vetted : List String} {host : String} {tls : Bool}
    (hreachable : Reachable casing network host)
    (hvetted : ¬Vetted network vetted (stripBrackets (casing.lower host))) :
    (connectRefusal casing network
        (installSandboxNetGuard casing (sandboxHostPolicy casing policy)) vetted host tls).isSome
        = true ↔
      (policy.requireHttps = some (.bool true) ∧ tls = false) ∨
        ListsRefuse casing policy (stripBrackets (casing.lower host)) := by
  generalize hguard : installSandboxNetGuard casing (sandboxHostPolicy casing policy) = guard
  have hpolicy := policyRefusal_iff casing network vetted policy host hvetted
  rw [hguard] at hpolicy
  -- resolving the name asks the lists once more, about the same host
  have hlookup : network.isIP host = false →
      (lookupRefusal casing network guard vetted host)
        = policyRefusal casing network guard vetted host := by
    intro hname
    rw [Reachable, hname, if_neg Bool.false_ne_true] at hreachable
    have hlowered : policyRefusal casing network guard vetted (casing.lower host)
        = policyRefusal casing network guard vetted host := by
      unfold policyRefusal
      rw [casing.lower_lower]
    unfold lookupRefusal
    dsimp only
    rw [hlowered]
    cases policyRefusal casing network guard vetted host with
    | some reason => rfl
    | none => simp [hreachable.1, hreachable.2]
  have hplain : guard.transportPolicy.any (·.requireHttps.any Json.truthy) = true ↔
      policy.requireHttps = some (.bool true) := by
    rw [← hguard, install_transportPolicy]
    by_cases hhttps : policy.requireHttps = some (.bool true)
    · simp [hhttps, Json.truthy]
    · by_cases hmethods : nonblank policy.allowedHttpMethods = []
      · simp [hhttps, hmethods]
      · simp [hhttps, hmethods, Json.truthy]
  unfold connectRefusal
  split
  · next h =>
    rw [Bool.and_eq_true, hplain, Bool.not_eq_true'] at h
    exact iff_of_true rfl (.inl h)
  next hopen =>
  have hnot : ¬(policy.requireHttps = some (.bool true) ∧ tls = false) := by
    rw [← hplain]
    simpa using hopen
  rw [or_iff_right hnot, ← hpolicy]
  cases hrefused : policyRefusal casing network guard vetted host with
  | some reason => exact Iff.rfl
  | none =>
    dsimp only
    by_cases hip : network.isIP host = true
    · rw [if_pos hip]
      rw [Reachable, if_pos hip] at hreachable
      simp [hreachable]
    · rw [if_neg hip, hlookup (by simpa using hip), hrefused]
      rw [Reachable, if_neg hip] at hreachable
      simp [hreachable.1]

theorem requestRefusal_iff {network : Network} {vetted : List String} {url : Url} {method : Method}
    (hreachable : Reachable casing network (stripBrackets url.hostname))
    (hvetted : ¬Vetted network vetted (guardHost casing url)) :
    (requestRefusal casing network
        (installSandboxNetGuard casing (sandboxHostPolicy casing policy)) vetted url method).isSome
        = true ↔
      RuleRefuses casing policy url method ∨ ListsRefuse casing policy (guardHost casing url) := by
  rw [requestRefusal, isSome_or, Bool.or_eq_true, transportRefusal_iff,
    connectRefusal_iff casing hreachable hvetted]
  have hplain : policy.requireHttps = some (.bool true) ∧ decide (scheme casing url = "https") = false →
      RuleRefuses casing policy url method := by
    intro h
    exact .inl ⟨h.1, of_decide_eq_false h.2⟩
  constructor
  · rintro (h | h | h)
    · exact .inl h
    · exact .inl (hplain h)
    · exact .inr h
  · rintro (h | h)
    · exact .inl h
    · exact .inr (.inr h)

structure ReadAlike (policy : GatewayToolSecurityPolicy) (url : Url) (method : Method) : Prop where
  /-- What `decideToolRequest` reads into blanks and values that are not `true` is refused
  by the other settings too. -/
  overread : Overread casing policy url →
    RuleRefuses casing policy url method ∨ ListsRefuse casing policy (guardHost casing url)
  /-- The lists treat a host in brackets as they treat it without. -/
  bracketed : ListsRefuse casing policy url.hostname →
    RuleRefuses casing policy url method ∨ ListsRefuse casing policy (guardHost casing url)
  bare : ListsRefuse casing policy (guardHost casing url) →
    RuleRefuses casing policy url method ∨ ListsRefuse casing policy url.hostname ∨
      Overread casing policy url

theorem listsRefuse_guardHost {url : Url} (policy : GatewayToolSecurityPolicy)
    (hbare : stripBrackets url.hostname = url.hostname)
    (hlower : stripBrackets (casing.lower url.hostname) = casing.lower url.hostname) :
    ListsRefuse casing policy (guardHost casing url) ↔ ListsRefuse casing policy url.hostname := by
  have hsame : ∀ pattern, domainMatches casing (casing.lower url.hostname) pattern
      = domainMatches casing url.hostname pattern := by
    intro pattern
    unfold domainMatches
    rw [casing.lower_lower]
  rw [guardHost, hbare, hlower, ListsRefuse, ListsRefuse, funext hsame]

theorem readAlike_of_bare {url : Url} (method : Method)
    (hbare : stripBrackets url.hostname = url.hostname)
    (hlower : stripBrackets (casing.lower url.hostname) = casing.lower url.hostname)
    (hset : ¬Overread casing policy url) : ReadAlike casing policy url method where
  overread h := absurd h hset
  bracketed h := .inr ((listsRefuse_guardHost casing policy hbare hlower).mpr h)
  bare h := .inr (.inl ((listsRefuse_guardHost casing policy hbare hlower).mp h))

/-- **When a policy means the same on both paths**: where what only one of them reads changes
nothing. -/
theorem policy_read_alike_iff (network : Network) (vetted : List String)
    (policy : GatewayToolSecurityPolicy) (url : Url) (method : Method)
    (hreachable : Reachable casing network (stripBrackets url.hostname))
    (hvetted : ¬Vetted network vetted (guardHost casing url)) :
    ((decideToolRequest casing policy url method).isSome = true ↔
        (requestRefusal casing network
          (installSandboxNetGuard casing (sandboxHostPolicy casing policy)) vetted url
          method).isSome = true) ↔
      ReadAlike casing policy url method := by
  rw [decideToolRequest_iff, requestRefusal_iff casing hreachable hvetted]
  constructor
  · intro h
    refine ⟨fun ho => h.mp (.inr (.inr ho)), fun hl => h.mp (.inr (.inl hl)), fun hl => ?_⟩
    exact h.mpr (.inr hl)
  · intro h
    constructor
    · rintro (hr | hl | ho)
      · exact .inl hr
      · exact h.bracketed hl
      · exact h.overread ho
    · rintro (hr | hl)
      · exact .inl hr
      · exact h.bare hl

end

/-! ## Policies read differently -/

/-- Every name and address is public. -/
def openNetwork : Network where
  isIP host := host.toList.contains ':'
  isBannedAddress _ := false
  isBlockedHostname _ := false
  isBannedAnswer _ := false
  lookup _ := ["93.184.216.34"]

def getMethod : Method := ⟨"GET", get_nonblank⟩

def verdicts (policy : GatewayToolSecurityPolicy) (url : Url) : Bool × Bool :=
  ((decideToolRequest .settled policy url getMethod).isSome,
    (requestRefusal .settled openNetwork
      (installSandboxNetGuard .settled (sandboxHostPolicy .settled policy)) [] url
      getMethod).isSome)

def ordinaryPolicy : GatewayToolSecurityPolicy where
  allowedDomains := ["example.com", " "]
  allowedHttpMethods := ["GET"]
  requireHttps := some (.bool true)

/-- An ordinary policy refuses on both paths or on neither. -/
theorem ordinary_policy_read_alike :
    verdicts ordinaryPolicy ⟨"api.example.com", "https:"⟩ = (false, false) ∧
      ((verdicts ordinaryPolicy ⟨"example.org", "https:"⟩).1 = true ↔
        (verdicts ordinaryPolicy ⟨"example.org", "https:"⟩).2 = true) := by
  refine ⟨by decide, ?_⟩
  refine (policy_read_alike_iff .settled openNetwork [] ordinaryPolicy ⟨"example.org", "https:"⟩
    getMethod ⟨rfl, rfl⟩ ?_).mpr (readAlike_of_bare .settled getMethod rfl rfl ?_)
  · intro h
    cases h.2
  · unfold Overread OnlyBlanks
    decide

/-- A `requireHttps` of `"yes"` and a blank allow-list stop the executors only; an address in
brackets the sandbox only. -/
theorem policies_read_differently :
    verdicts { requireHttps := some (.str "yes") } ⟨"api.example.com", "http:"⟩ = (true, false) ∧
      verdicts { allowedDomains := [" "] } ⟨"api.example.com", "https:"⟩ = (true, false) ∧
      verdicts { allowedHttpMethods := [" "] } ⟨"api.example.com", "https:"⟩ = (true, false) ∧
      verdicts { blockedDomains := ["2606:4700::1111"] } ⟨"[2606:4700::1111]", "https:"⟩
        = (false, true) := by
  decide

end Almyty.Security
