import Mathlib

/-!
# Grant decisions: `grant-check.ts`

Who may use a connection and who may manage its grants, decided from the connection, the
caller and the list of grants in hand, with no reading of anything. Each decision is one formula
over the grants of the list (`canUse_allowed`, `canManage_allowed`, `not_hidden`), and
`grant_decisions_cohere` compares them.
-/

namespace Almyty.Connections

open Option

inductive GrantPrincipalType
  | user
  | team
  | role
  | agent
  | workspace
  deriving DecidableEq

inductive GrantPermission
  | use
  | manage
  deriving DecidableEq

structure Grant where
  id : Nat
  principalType : GrantPrincipalType
  principalId : String
  permission : GrantPermission
  budgetId : Option String
  grantedBy : Option String
  expiresAt : Option Int

structure GrantPrincipal where
  userId : String
  roles : List String
  teamIds : List String
  permissions : List String := []
  agentId : Option String := none
  workspaceId : Option String := none

structure GrantContext where
  agentId : Option String := none
  workspaceId : Option String := none
  now : Int

inductive ConnectionVisibility
  | org
  | team
  | private'
  deriving DecidableEq

structure ConnectionLike where
  organizationId : String
  ownerUserId : Option String := none
  visibility : Option ConnectionVisibility := none
  teamId : Option String := none

inductive GrantVia
  | owner
  | connectionsManage
  | grant

structure GrantDecision where
  allowed : Bool
  reason : String
  via : Option GrantVia := none
  grant : Option Grant := none

def allow (reason : String) (via : GrantVia) (grant : Option Grant := none) : GrantDecision where
  allowed := true
  reason := reason
  via := via
  grant := grant

def deny (reason : String) : GrantDecision where
  allowed := false
  reason := reason

def CONNECTIONS_READ : String := "connections:read"

def CONNECTIONS_MANAGE : String := "connections:manage"

/-- `ROLE_CONNECTION_PERMISSIONS`. -/
def roleHasConnectionPermission (role permission : String) : Bool :=
  if role = "owner" ∨ role = "admin" then [CONNECTIONS_READ, CONNECTIONS_MANAGE].contains permission
  else if role = "member" ∨ role = "viewer" then permission = CONNECTIONS_READ
  else false

def isExpired (grant : Grant) (now : Int) : Bool := grant.expiresAt.any (· ≤ now)

def hasPermission (principal : GrantPrincipal) (permission : String) : Bool :=
  (principal.roles.any fun role => roleHasConnectionPermission role permission) ||
    principal.permissions.contains permission

def hasManagePermission (principal : GrantPrincipal) : Bool :=
  hasPermission principal CONNECTIONS_MANAGE

def hasReadPermission (principal : GrantPrincipal) : Bool :=
  hasPermission principal CONNECTIONS_READ

def grantMatches (grant : Grant) (principal : GrantPrincipal) (context : GrantContext) : Bool :=
  !isExpired grant context.now &&
    match grant.principalType with
    | .user => grant.principalId = principal.userId
    | .team => principal.teamIds.contains grant.principalId
    | .role => principal.roles.contains grant.principalId
    | .agent => grant.principalId ≠ "" &&
        (context.agentId.or principal.agentId) = some grant.principalId
    | .workspace => grant.principalId ≠ "" &&
        (context.workspaceId.or principal.workspaceId) = some grant.principalId

def matchingGrants (grants : List Grant) (principal : GrantPrincipal) (context : GrantContext) :
    List Grant :=
  let matching := grants.filter fun grant => grantMatches grant principal context
  matching.filter (·.permission = .manage) ++ matching.filter (·.permission ≠ .manage)

def isOwner (connection : ConnectionLike) (principal : GrantPrincipal) : Bool :=
  connection.ownerUserId.any fun owner => owner ≠ "" && owner = principal.userId

/-- Owned by nobody in particular: the organization's. -/
def isOrgScoped (connection : ConnectionLike) : Bool := connection.ownerUserId.all (· = "")

def privateGate (connection : ConnectionLike) : Option GrantDecision :=
  if connection.visibility ≠ some .private' then none
  else some (deny "private connection belongs to another user")

def teamGate (connection : ConnectionLike) (principal : GrantPrincipal) : Option GrantDecision :=
  if connection.visibility ≠ some .team then none
  else
    match connection.teamId with
    | none => some (deny "team-scoped connection without a team")
    | some teamId =>
      if teamId = "" then some (deny "team-scoped connection without a team")
      else if hasManagePermission principal then none
      else if principal.teamIds.contains teamId then none
      else some (deny "not a member of the connection team")

def gate (connection : ConnectionLike) (principal : GrantPrincipal) : Option GrantDecision :=
  (privateGate connection).or (teamGate connection principal)

def GrantPrincipalType.text : GrantPrincipalType → String
  | .user => "user"
  | .team => "team"
  | .role => "role"
  | .agent => "agent"
  | .workspace => "workspace"

def GrantPermission.text : GrantPermission → String
  | .use => "use"
  | .manage => "manage"

def describe (grant : Grant) : String :=
  grant.permission.text ++ " grant to " ++ grant.principalType.text ++ " " ++ grant.principalId

def connectionVisibleTo (connection : ConnectionLike) (principal : GrantPrincipal) : Bool :=
  if isOwner connection principal then true
  else if (gate connection principal).isSome then false
  else if isOrgScoped connection then hasReadPermission principal
  else hasManagePermission principal

def connectionHiddenFrom (connection : ConnectionLike) (principal : GrantPrincipal)
    (grants : List Grant) (context : GrantContext) : Bool :=
  if connectionVisibleTo connection principal then false
  else if !isOwner connection principal && (gate connection principal).isSome then true
  else (matchingGrants grants principal context).isEmpty

def canUse (connection : ConnectionLike) (principal : GrantPrincipal) (grants : List Grant)
    (context : GrantContext) : GrantDecision :=
  if isOwner connection principal then allow "connection owner" .owner
  else
    match gate connection principal with
    | some denied => denied
    | none =>
      if isOrgScoped connection && hasManagePermission principal then
        allow "connections:manage on an org-scoped connection" .connectionsManage
      else
        match (matchingGrants grants principal context).head? with
        | some matched => allow (describe matched) .grant (some matched)
        | none =>
          deny (if isOrgScoped connection then "no grant on this org-scoped connection"
            else "no grant on this user-scoped connection")

def canManage (connection : ConnectionLike) (principal : GrantPrincipal) (grants : List Grant)
    (context : GrantContext) : GrantDecision :=
  if isOwner connection principal then allow "connection owner" .owner
  else
    match gate connection principal with
    | some denied => denied
    | none =>
      if isOrgScoped connection && hasManagePermission principal then
        allow "connections:manage on an org-scoped connection" .connectionsManage
      else
        match (matchingGrants grants principal context).find? (·.permission = .manage) with
        | some matched => allow (describe matched) .grant (some matched)
        | none =>
          deny (if isOrgScoped connection then "connections:manage or a manage grant is required"
            else "only the owner or a manage grant can manage a user-scoped connection")

variable {connection : ConnectionLike} {principal : GrantPrincipal} {grants : List Grant}
  {context : GrantContext}

/-! ## The decisions together -/

theorem mem_matchingGrants {grant : Grant} : grant ∈ matchingGrants grants principal context ↔
    grant ∈ grants ∧ grantMatches grant principal context := by
  simp only [matchingGrants, List.mem_append, List.mem_filter, decide_eq_true_eq]
  by_cases h : grant.permission = .manage <;> simp [h]

/-- The gates only ever deny. -/
theorem gate_denies {denied : GrantDecision} (h : gate connection principal = some denied) :
    denied.allowed = false := by
  unfold gate privateGate teamGate deny at h
  grind

theorem gate_private (h : connection.visibility = some .private') :
    gate connection principal ≠ none := by
  simp [gate, privateGate, h]

theorem gate_team (h : connection.visibility = some .team)
    (hopen : gate connection principal = none) : hasManagePermission principal ∨
      ∃ teamId ∈ connection.teamId, teamId ∈ principal.teamIds := by
  unfold gate privateGate teamGate at hopen
  grind

/-- The order of `canUse` and `canManage`: the owner, the gates, `connections:manage`, and the grant
each looks for. -/
theorem decision_allowed {manages : Bool} {found : Option Grant} {reason : String} :
    (if isOwner connection principal then allow "connection owner" .owner else
      match gate connection principal with
      | some denied => denied
      | none =>
        if manages then allow "connections:manage on an org-scoped connection" .connectionsManage
        else
          match found with
          | some matched => allow (describe matched) .grant (some matched)
          | none => deny reason).allowed = true ↔
      isOwner connection principal ∨
        gate connection principal = none ∧ (manages ∨ ∃ grant, grant ∈ found) := by
  cases howner : isOwner connection principal
  · cases hgate : gate connection principal with
    | some denied => simp [gate_denies hgate]
    | none => cases manages <;> cases found <;> simp [allow, deny]
  · simp [allow]

theorem canUse_allowed : (canUse connection principal grants context).allowed ↔
    isOwner connection principal ∨ gate connection principal = none ∧
      (isOrgScoped connection && hasManagePermission principal ∨
        ∃ grant ∈ grants, grantMatches grant principal context) := by
  refine decision_allowed.trans (or_congr_right (and_congr_right fun _ => or_congr_right ?_))
  simp only [mem_def, ← isSome_iff_exists, List.isSome_head?, ← mem_matchingGrants]
  exact List.isEmpty_eq_false_iff.symm.trans List.isEmpty_eq_false_iff_exists_mem

theorem canManage_allowed : (canManage connection principal grants context).allowed ↔
    isOwner connection principal ∨ gate connection principal = none ∧
      (isOrgScoped connection && hasManagePermission principal ∨
        ∃ grant ∈ grants, grantMatches grant principal context ∧ grant.permission = .manage) := by
  refine decision_allowed.trans (or_congr_right (and_congr_right fun _ => or_congr_right ?_))
  simp only [mem_def, ← isSome_iff_exists, List.find?_isSome, mem_matchingGrants,
    decide_eq_true_eq, and_assoc]

theorem connectionVisibleTo_iff : connectionVisibleTo connection principal ↔
    isOwner connection principal ∨ gate connection principal = none ∧
      (if isOrgScoped connection then hasReadPermission principal
        else hasManagePermission principal) := by
  unfold connectionVisibleTo
  cases isOwner connection principal <;> cases gate connection principal <;>
    cases isOrgScoped connection <;> simp

theorem not_hidden : connectionHiddenFrom connection principal grants context = false ↔
    connectionVisibleTo connection principal ∨ gate connection principal = none ∧
      ∃ grant ∈ grants, grantMatches grant principal context := by
  have howner : isOwner connection principal → connectionVisibleTo connection principal :=
    fun h => connectionVisibleTo_iff.mpr (.inl h)
  simp only [connectionHiddenFrom, ← mem_matchingGrants, ← List.isEmpty_eq_false_iff_exists_mem]
  cases hvisible : connectionVisibleTo connection principal
  · cases gate connection principal <;> simp_all
  · simp

theorem grantMatches_earlier {grant : Grant} {now : Int} (hnow : context.now ≤ now)
    (h : grantMatches grant principal { context with now := now }) :
    grantMatches grant principal context := by
  have hexpired : isExpired grant context.now → isExpired grant now := by
    unfold isExpired
    cases grant.expiresAt with
    | none => exact id
    | some expiresAt =>
      simp only [any_some, decide_eq_true_eq]
      omega
  unfold grantMatches at h ⊢
  simp only [Bool.and_eq_true, Bool.not_eq_true'] at h ⊢
  exact ⟨by grind, h.2⟩

/-- Managing is using, what may be seen is not hidden, a gate stands before every grant, and fewer
grants or a later clock open nothing; with `connections:manage` alone an organization's connection
is used unseen. -/
theorem grant_decisions_cohere (connection : ConnectionLike) (principal : GrantPrincipal)
    (grants : List Grant) (context : GrantContext) :
    ((canManage connection principal grants context).allowed →
      (canUse connection principal grants context).allowed) ∧
    (connectionVisibleTo connection principal →
      connectionHiddenFrom connection principal grants context = false) ∧
    ((canUse connection principal grants context).allowed →
      (connectionHiddenFrom connection principal grants context ↔
        isOwner connection principal = false ∧ isOrgScoped connection ∧
          hasManagePermission principal ∧ hasReadPermission principal = false ∧
          ∀ grant ∈ grants, grantMatches grant principal context = false)) ∧
    (isOwner connection principal = false →
      connection.visibility = some .private' ∨
        connection.visibility = some .team ∧ hasManagePermission principal = false ∧
          (∀ teamId ∈ connection.teamId, teamId ∉ principal.teamIds) →
      (canUse connection principal grants context).allowed = false ∧
        (canManage connection principal grants context).allowed = false ∧
        connectionVisibleTo connection principal = false) ∧
    ∀ fewer ⊆ grants, ∀ now ≥ context.now,
      ((canUse connection principal fewer { context with now := now }).allowed →
        (canUse connection principal grants context).allowed) ∧
      ((canManage connection principal fewer { context with now := now }).allowed →
        (canManage connection principal grants context).allowed) ∧
      (connectionHiddenFrom connection principal grants context →
        connectionHiddenFrom connection principal fewer { context with now := now }) := by
  refine ⟨?_, fun h => not_hidden.mpr (.inl h), ?_, ?_, ?_⟩
  · rw [canManage_allowed, canUse_allowed]
    grind
  · intro huse
    have hhidden := @not_hidden connection principal grants context
    rw [connectionVisibleTo_iff] at hhidden
    rw [canUse_allowed] at huse
    cases hread : hasReadPermission principal <;> cases hscope : isOrgScoped connection <;> grind
  · intro howner hshut
    have hgate : gate connection principal ≠ none := by
      rcases hshut with hprivate | ⟨hteam, hmanage, hmember⟩
      · exact gate_private hprivate
      · intro hopen
        have := gate_team hteam hopen
        grind
    simp only [← Bool.not_eq_true, canUse_allowed, canManage_allowed, connectionVisibleTo_iff,
      howner, hgate]
    simp
  · intro fewer hfewer now hnow
    have hmatch : ∀ grant ∈ fewer, grantMatches grant principal { context with now := now } →
        grant ∈ grants ∧ grantMatches grant principal context :=
      fun grant hgrant h => ⟨hfewer hgrant, grantMatches_earlier hnow h⟩
    refine ⟨?_, ?_, ?_⟩
    · rw [canUse_allowed, canUse_allowed]
      grind
    · rw [canManage_allowed, canManage_allowed]
      grind
    · rw [← Bool.not_eq_false, ← Bool.not_eq_false, not_hidden, not_hidden]
      grind

theorem manage_alone_is_hidden :
    let connection : ConnectionLike := { organizationId := "org" }
    let principal : GrantPrincipal := {
      userId := "user", roles := ["operator"], teamIds := [], permissions := [CONNECTIONS_MANAGE] }
    (canUse connection principal [] { now := 0 }).allowed ∧
      connectionHiddenFrom connection principal [] { now := 0 } := by decide

end Almyty.Connections
