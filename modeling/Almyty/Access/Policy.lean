import Almyty.Access.Membership
import Almyty.Lib.Assoc
import Almyty.Lib.Sql

/-!
# Who sees a row: `access-policy.service.ts`

The visibility of a row (organization, team, private) is read in four places: of one row in hand
(`canAccess`), of a list in hand (`filterVisible`), as a condition on a query builder
(`applyListFilter`) and as find options (`visibleWhere`). They are meant to be one policy.

`read_alike_iff` says for which rows they are. The first three read a null visibility as
organization-wide; the fourth compares the column, and no comparison with a null is true, so a row
without a visibility is left out of every count and find. And a private row is its owner's:
`canAccess` and `filterVisible` read the first owner column that is set, the two query forms the
column the entity names, so the two must name the same user.

Mirroring notes:
- A find option is a comparison under the column's name, a `where` object the conjunction of its
  entries, as TypeORM builds them.
-/

namespace Almyty.Access

open Almyty.Lib Sql List Option

inductive Visibility
  | org
  | team
  | private'
  deriving DecidableEq

inductive TeamRole
  | lead
  | member
  deriving DecidableEq

inductive ResourceAction
  | read
  | use
  | manage
  deriving DecidableEq

inductive OwnerColumn
  | ownerUserId
  | createdBy
  deriving DecidableEq

structure Resource where
  organizationId : Uuid
  visibility : Option Visibility
  teamId : Option Uuid
  ownerUserId : Option Uuid
  createdBy : Option Uuid
  other : String → Option String := fun _ => none

structure AccessDecision where
  allowed : Bool
  reason : String

def allow (reason : String) : AccessDecision := ⟨true, reason⟩

def deny (reason : String) : AccessDecision := ⟨false, reason⟩

def Resource.ownerId (resource : Resource) : Option Uuid :=
  resource.ownerUserId.or resource.createdBy

def Resource.owner (resource : Resource) : OwnerColumn → Option Uuid
  | .ownerUserId => resource.ownerUserId
  | .createdBy => resource.createdBy

def normaliseVisibility (visibility : Option Visibility) (teamId : Option Uuid) :
    Visibility × Option Uuid :=
  let v := visibility.getD .org
  (v, if v = .team then teamId else none)

/-! ## The membership tables -/

structure UserOrganization where
  userId : Uuid
  organizationId : Uuid
  membership : Membership

structure UserTeam where
  userId : Uuid
  teamId : Uuid
  role : TeamRole
  isActive : Bool

structure Team where
  id : Uuid
  organizationId : Uuid

structure Tables where
  userOrgs : List UserOrganization
  userTeams : List UserTeam
  teams : List Team

section Policy

variable (tables : Tables)

def getOrgRole (userId organizationId : Uuid) : Option OrganizationRole :=
  let row := tables.userOrgs.find? fun row =>
    row.userId = userId && row.organizationId = organizationId && row.membership.isActive
  (row.filter (·.membership.isEffective)).map (·.membership.role)

def getTeamMemberships (userId organizationId : Uuid) : List (Uuid × TeamRole) :=
  (tables.userTeams.filter fun ut => ut.userId = userId && ut.isActive &&
    tables.teams.any fun t => t.id = ut.teamId && t.organizationId = organizationId).foldl
    (fun out row => Assoc.put out row.teamId row.role) []

def isAdmin (role : OrganizationRole) : Bool := role = .owner || role = .admin

def canAccess (userId : Uuid) (resource : Resource) (action : ResourceAction) : AccessDecision :=
  match getOrgRole tables userId resource.organizationId with
  | none => deny "not a member of this organization"
  | some orgRole =>
    let visibility := resource.visibility.getD .org
    -- private before the bypass
    if visibility = .private' then
      if resource.ownerId = some userId then allow "owner of private resource"
      else deny "private resource belongs to another user"
    else if isAdmin orgRole then allow "org owner/admin bypass"
    else if visibility = .org then
      if action = .read ∨ action = .use then allow "org-wide visibility"
      else deny "manage on org-wide resource requires admin role"
    else match resource.teamId with
      | none => deny "team-scoped resource without teamId"
      | some teamId =>
        match (getTeamMemberships tables userId resource.organizationId).lookup teamId with
        | none => deny "not a member of the resource's team"
        | some teamRole =>
          if action = .read ∨ action = .use then allow "team member"
          else if teamRole = .lead then allow "team lead"
          else deny "manage requires team lead"

def filterVisible (userId organizationId : Uuid) (rows : List Resource) : List Resource :=
  match getOrgRole tables userId organizationId with
  | none => []
  | some orgRole =>
    let teams := if isAdmin orgRole then [] else getTeamMemberships tables userId organizationId
    rows.filter fun row =>
      if row.organizationId ≠ organizationId then false
      else
        let visibility := row.visibility.getD .org
        if visibility = .private' then row.ownerId = some userId
        else if isAdmin orgRole ∨ visibility = .org then true
        else row.teamId.any fun teamId => (teams.lookup teamId).isSome

/-! ## The two query forms -/

inductive Column
  | organizationId
  | visibility
  | teamId
  | owner (column : OwnerColumn)
  | other (name : String)
  deriving DecidableEq

inductive Value
  | uuid (id : Uuid)
  | tier (visibility : Visibility)
  | text (s : String)
  deriving DecidableEq

/-- The row as a query reads it. -/
def Resource.columns (resource : Resource) : Column → Option Value
  | .organizationId => some (.uuid resource.organizationId)
  | .visibility => resource.visibility.map .tier
  | .teamId => resource.teamId.map .uuid
  | .owner column => (resource.owner column).map .uuid
  | .other name => (resource.other name).map .text

structure Forbidden where
  message : String

def notAMember : Forbidden := ⟨"You are not a member of this organization"⟩

structure ListFilter where
  andWhere : List (Cond Column Value)
  bypass : Bool
  teamIds : List Uuid

def orOwnPrivate (userId : Uuid) (ownerColumn : Option OwnerColumn) (c : Cond Column Value) :
    Cond Column Value :=
  match ownerColumn with
  | none => c
  | some column =>
    .or c (.and (.eq .visibility (.tier .private')) (.eq (.owner column) (.uuid userId)))

/-- The rows a condition keeps, and those of these teams when there are any. -/
def orOfTeams (teamIds : List Uuid) (c : Cond Column Value) : Cond Column Value :=
  if teamIds = [] then c
  else .or c (.and (.eq .visibility (.tier .team)) (.isIn .teamId (teamIds.map .uuid)))

def applyListFilter (userId organizationId : Uuid) (ownerColumn : Option OwnerColumn) :
    Except Forbidden ListFilter :=
  match getOrgRole tables userId organizationId with
  | none => .error notAMember
  | some orgRole =>
    let inOrg := Cond.eq Column.organizationId (Value.uuid organizationId)
    if isAdmin orgRole then
      .ok { andWhere := [inOrg, orOwnPrivate userId ownerColumn
              (.or (.isNull .visibility) (.ne .visibility (.tier .private')))]
            bypass := true, teamIds := [] }
    else
      let teamIds := Assoc.keys (getTeamMemberships tables userId organizationId)
      .ok { andWhere := [inOrg, orOwnPrivate userId ownerColumn (orOfTeams teamIds
              (.or (.isNull .visibility) (.eq .visibility (.tier .org))))]
            bypass := false, teamIds := teamIds }

inductive FindOperator
  | equal (value : Value)
  | not' (value : Value)
  | isIn (values : List Value)

def FindOperator.cond (column : Column) : FindOperator → Cond Column Value
  | .equal value => .eq column value
  | .not' value => .ne column value
  | .isIn values => .isIn column values

abbrev FindWhere := List (Column × FindOperator)

def scopedWhere (base : FindWhere) (organizationId : Uuid) (entries : FindWhere) : FindWhere :=
  Assoc.putAll base ((.organizationId, .equal (.uuid organizationId)) :: entries)

def ownTier (userId organizationId : Uuid) (base : FindWhere) (ownerColumn : Option OwnerColumn) :
    List FindWhere :=
  ownerColumn.toList.map fun column => scopedWhere base organizationId
    [(.visibility, .equal (.tier .private')), (.owner column, .equal (.uuid userId))]

/-- The alternative for the rows of these teams, when there are any. -/
def teamTier (organizationId : Uuid) (base : FindWhere) (teamIds : List Uuid) : List FindWhere :=
  if teamIds = [] then []
  else [scopedWhere base organizationId
    [(.visibility, .equal (.tier .team)), (.teamId, .isIn (teamIds.map .uuid))]]

def visibleWhere (userId organizationId : Uuid) (base : FindWhere)
    (ownerColumn : Option OwnerColumn) : Except Forbidden (List FindWhere) :=
  match getOrgRole tables userId organizationId with
  | none => .error notAMember
  | some orgRole =>
    let own := ownTier userId organizationId base ownerColumn
    if isAdmin orgRole then
      .ok (scopedWhere base organizationId [(.visibility, .not' (.tier .private'))] :: own)
    else
      let teamIds := Assoc.keys (getTeamMemberships tables userId organizationId)
      .ok (scopedWhere base organizationId [(.visibility, .equal (.tier .org))] ::
        teamTier organizationId base teamIds ++ own)

end Policy

/-! ## What the query forms keep -/

def ListFilter.Keeps (filter : ListFilter) (row : Resource) : Prop :=
  ∀ c ∈ filter.andWhere, c.Keeps row.columns

def Satisfies (row : Resource) (tier : FindWhere) : Prop :=
  ∀ column operator, tier.lookup column = some operator → (operator.cond column).Keeps row.columns

/-! ## One policy -/

section Readings

variable (tables : Tables) (userId organizationId : Uuid) (row : Resource)

def Sees (role : OrganizationRole) (owner : Option Uuid) : Prop :=
  if row.visibility = some .private' then owner = some userId
  else isAdmin role = true ∨ row.visibility.getD .org = .org ∨
    ∃ teamId, row.teamId = some teamId ∧
      teamId ∈ Assoc.keys (getTeamMemberships tables userId row.organizationId)

/-- `canAccess(user, row, 'read')` allows the row. -/
def Allowed : Prop := (canAccess tables userId row .read).allowed = true

/-- `applyListFilter`'s query keeps the row. -/
def Listed (ownerColumn : Option OwnerColumn) : Prop :=
  ∃ filter, applyListFilter tables userId organizationId ownerColumn = .ok filter ∧ filter.Keeps row

/-- One of `visibleWhere`'s alternatives takes the row. -/
def Found (base : FindWhere) (ownerColumn : Option OwnerColumn) : Prop :=
  ∃ tiers, visibleWhere tables userId organizationId base ownerColumn = .ok tiers ∧
    ∃ tier ∈ tiers, Satisfies row tier

end Readings

variable {tables : Tables} {userId organizationId : Uuid} {row : Resource}
  {role : OrganizationRole} {base : FindWhere} {ownerColumn : Option OwnerColumn}

theorem any_teams_iff {teams : List (Uuid × TeamRole)} {teamId : Option Uuid} :
    teamId.any (fun id => (teams.lookup id).isSome) = true ↔
      ∃ id, teamId = some id ∧ id ∈ Assoc.keys teams := by
  cases teamId with
  | none => simp
  | some id => rw [any_some, Assoc.lookup_isSome_iff]; simp

theorem allowed_iff (hrole : getOrgRole tables userId row.organizationId = some role) :
    Allowed tables userId row ↔ Sees tables userId row role row.ownerId := by
  unfold Allowed canAccess Sees
  rw [hrole]
  cases hv : row.visibility with
  | none => cases hadmin : isAdmin role <;> simp [allow, hadmin]
  | some v =>
    cases v with
    | private' => by_cases howner : row.ownerId = some userId <;> simp [allow, deny, howner]
    | org => cases hadmin : isAdmin role <;> simp [allow, hadmin]
    | team =>
      rw [← any_teams_iff]
      cases hadmin : isAdmin role with
      | true => simp [allow, hadmin]
      | false =>
        cases hteam : row.teamId with
        | none => simp [deny, hadmin]
        | some teamId =>
          rw [any_some]
          dsimp only
          generalize (getTeamMemberships tables userId row.organizationId).lookup teamId = found
          cases found <;> simp [allow, deny, hadmin]

theorem mem_filterVisible_iff {rows : List Resource}
    (hrole : getOrgRole tables userId organizationId = some role) :
    row ∈ filterVisible tables userId organizationId rows ↔
      row ∈ rows ∧ row.organizationId = organizationId ∧
        Sees tables userId row role row.ownerId := by
  unfold filterVisible Sees
  rw [hrole, mem_filter, ← any_teams_iff]
  refine and_congr_right fun _ => ?_
  by_cases horg : row.organizationId = organizationId
  · subst horg
    cases hadmin : isAdmin role <;> rcases hv : row.visibility with _ | _ | _ | _ <;> simp
  · simp [horg]

variable {teamIds : List Uuid}

variable {c : Cond Column Value}

theorem keeps_pair {bypass : Bool} :
    ListFilter.Keeps
        ⟨[.eq .organizationId (.uuid organizationId), c], bypass, teamIds⟩ row ↔
      row.organizationId = organizationId ∧ c.Keeps row.columns := by
  simp [ListFilter.Keeps, Resource.columns]

theorem keeps_tier {v : Visibility} :
    (Cond.eq Column.visibility (Value.tier v)).Keeps row.columns ↔ row.visibility = some v := by
  simp [Resource.columns]

theorem keeps_owner {column : OwnerColumn} :
    (Cond.eq (Column.owner column) (Value.uuid userId)).Keeps row.columns ↔
      row.owner column = some userId := by
  simp [Resource.columns]

theorem keeps_teams :
    (Cond.isIn Column.teamId (teamIds.map Value.uuid)).Keeps row.columns ↔
      ∃ id, row.teamId = some id ∧ id ∈ teamIds := by
  cases hteam : row.teamId <;> simp [Resource.columns, hteam]

theorem keeps_orOwnPrivate :
    (orOwnPrivate userId ownerColumn c).Keeps row.columns ↔ c.Keeps row.columns ∨
      row.visibility = some .private' ∧ ownerColumn.bind row.owner = some userId := by
  cases ownerColumn with
  | none => simp [orOwnPrivate]
  | some column =>
    rw [orOwnPrivate, keeps_or, keeps_and, keeps_tier, keeps_owner, bind_some]

theorem keeps_orOfTeams :
    (orOfTeams teamIds c).Keeps row.columns ↔ c.Keeps row.columns ∨
      row.visibility = some .team ∧ ∃ id, row.teamId = some id ∧ id ∈ teamIds := by
  unfold orOfTeams
  split
  next hempty => simp [hempty]
  next => rw [keeps_or, keeps_and, keeps_tier, keeps_teams]

theorem keeps_isNull_visibility :
    (Cond.isNull (ν := Value) Column.visibility).Keeps row.columns ↔ row.visibility = none := by
  simp [Resource.columns]

theorem keeps_not_private :
    (Cond.ne Column.visibility (Value.tier .private')).Keeps row.columns ↔
      ∃ v, row.visibility = some v ∧ v ≠ .private' := by
  cases hv : row.visibility <;> simp [Resource.columns, hv]

theorem listed_iff (hrole : getOrgRole tables userId organizationId = some role) :
    Listed tables userId organizationId row ownerColumn ↔
      row.organizationId = organizationId ∧
        Sees tables userId row role (ownerColumn.bind row.owner) := by
  unfold Listed applyListFilter Sees
  rw [hrole]
  cases hadmin : isAdmin role with
  | true =>
    simp only [hadmin, if_true, Except.ok.injEq, exists_eq_left', keeps_pair, keeps_orOwnPrivate,
      keeps_or, keeps_isNull_visibility, keeps_not_private]
    rcases hv : row.visibility with _ | _ | _ | _ <;> simp
  | false =>
    simp only [hadmin, Bool.false_eq_true, if_false, Except.ok.injEq, exists_eq_left', keeps_pair,
      keeps_orOwnPrivate, keeps_orOfTeams, keeps_or, keeps_isNull_visibility, keeps_tier]
    refine and_congr_right fun horg => ?_
    subst horg
    rcases hv : row.visibility with _ | _ | _ | _ <;> simp

/-- A caller's `where` spread with entries of its own: for a row the caller's takes, the entries
decide. -/
theorem satisfies_scopedWhere (hbase : Satisfies row base) {entries : FindWhere}
    (hn : (Assoc.keys ((.organizationId, .equal (.uuid organizationId)) :: entries)).Nodup) :
    Satisfies row (scopedWhere base organizationId entries) ↔
      row.organizationId = organizationId ∧ ∀ e ∈ entries, (e.2.cond e.1).Keeps row.columns := by
  have horg : (Cond.eq Column.organizationId (Value.uuid organizationId)).Keeps row.columns ↔
      row.organizationId = organizationId := by simp [Resource.columns]
  rw [← horg]
  unfold Satisfies scopedWhere
  simp only [Assoc.lookup_putAll _ hn, or_eq_some_iff]
  constructor
  · intro h
    exact ⟨h _ _ (.inl (Assoc.lookup_of_mem hn mem_cons_self)),
      fun e he => h e.1 e.2 (.inl (Assoc.lookup_of_mem hn (mem_cons_of_mem _ he)))⟩
  · rintro ⟨hfirst, hentries⟩ column operator (hentry | ⟨-, hentry⟩)
    · rcases mem_cons.mp (Assoc.mem_of_lookup hentry) with heq | hmem
      · obtain ⟨rfl, rfl⟩ := Prod.mk.inj heq
        exact hfirst
      · exact hentries _ hmem
    · exact hbase column operator hentry

theorem satisfies_tier (hbase : Satisfies row base) (operator : FindOperator) :
    Satisfies row (scopedWhere base organizationId [(.visibility, operator)]) ↔
      row.organizationId = organizationId ∧ (operator.cond .visibility).Keeps row.columns := by
  rw [satisfies_scopedWhere hbase (by simp [Assoc.keys]), forall_mem_singleton]

theorem mem_ownTier (hbase : Satisfies row base) :
    (∃ tier ∈ ownTier userId organizationId base ownerColumn, Satisfies row tier) ↔
      row.organizationId = organizationId ∧ row.visibility = some .private' ∧
        ownerColumn.bind row.owner = some userId := by
  unfold ownTier
  cases ownerColumn with
  | none => simp
  | some column =>
    rw [toList_some, map_singleton]
    simp only [mem_singleton, exists_eq_left, bind_some]
    rw [satisfies_scopedWhere hbase (by simp [Assoc.keys]), forall_mem_cons, forall_mem_singleton]
    exact and_congr_right fun _ => and_congr keeps_tier keeps_owner

theorem mem_teamTier (hbase : Satisfies row base) :
    (∃ tier ∈ teamTier organizationId base teamIds, Satisfies row tier) ↔
      row.organizationId = organizationId ∧ row.visibility = some .team ∧
        ∃ id, row.teamId = some id ∧ id ∈ teamIds := by
  unfold teamTier
  split
  next hempty => simp [hempty]
  next =>
    simp only [mem_singleton, exists_eq_left]
    rw [satisfies_scopedWhere hbase (by simp [Assoc.keys]), forall_mem_cons, forall_mem_singleton]
    exact and_congr_right fun _ => and_congr keeps_tier keeps_teams

theorem found_iff (hrole : getOrgRole tables userId organizationId = some role)
    (hbase : Satisfies row base) :
    Found tables userId organizationId row base ownerColumn ↔
      row.organizationId = organizationId ∧ row.visibility ≠ none ∧
        Sees tables userId row role (ownerColumn.bind row.owner) := by
  unfold Found visibleWhere Sees
  rw [hrole]
  cases hadmin : isAdmin role with
  | true =>
    simp only [hadmin, if_true, Except.ok.injEq, exists_eq_left', mem_cons, exists_eq_or_imp,
      mem_ownTier hbase, satisfies_tier hbase, FindOperator.cond, keeps_not_private]
    rcases hv : row.visibility with _ | _ | _ | _ <;> simp
  | false =>
    simp only [hadmin, Bool.false_eq_true, if_false, Except.ok.injEq, exists_eq_left',
      cons_append, mem_cons, exists_eq_left, mem_append, or_and_right, exists_or,
      mem_teamTier hbase, mem_ownTier hbase, satisfies_tier hbase, FindOperator.cond, keeps_tier]
    by_cases horg : row.organizationId = organizationId
    · subst horg
      rcases hv : row.visibility with _ | _ | _ | _ <;> simp
    · simp [horg]

/-! ## The four readings -/

structure ReadAlike (tables : Tables) (userId organizationId : Uuid) (row : Resource)
    (ownerColumn : Option OwnerColumn) : Prop where
  member : getOrgRole tables userId organizationId ≠ none → row.organizationId = organizationId →
    ∀ rows base, row ∈ rows → Satisfies row base →
      (Allowed tables userId row ↔ row ∈ filterVisible tables userId organizationId rows) ∧
      (Allowed tables userId row ↔ Listed tables userId organizationId row ownerColumn) ∧
      (Allowed tables userId row ↔ Found tables userId organizationId row base ownerColumn)
  outsider : getOrgRole tables userId organizationId = none → ∀ rows base,
    (row.organizationId = organizationId → ¬Allowed tables userId row) ∧
    row ∉ filterVisible tables userId organizationId rows ∧
    ¬Listed tables userId organizationId row ownerColumn ∧
    ¬Found tables userId organizationId row base ownerColumn
  elsewhere : row.organizationId ≠ organizationId → ∀ rows base, Satisfies row base →
    row ∉ filterVisible tables userId organizationId rows ∧
    ¬Listed tables userId organizationId row ownerColumn ∧
    ¬Found tables userId organizationId row base ownerColumn

def Recorded (userId : Uuid) (row : Resource) (ownerColumn : Option OwnerColumn) : Prop :=
  row.visibility ≠ none ∧ (row.visibility = some .private' →
    (row.ownerId = some userId ↔ ownerColumn.bind row.owner = some userId))

theorem sees_congr {owner owner' : Option Uuid} :
    (Sees tables userId row role owner ↔ Sees tables userId row role owner') ↔
      (row.visibility = some .private' → (owner = some userId ↔ owner' = some userId)) := by
  unfold Sees
  by_cases hprivate : row.visibility = some .private' <;> simp [hprivate]

/-- The readings agree unless a member reads a row of the organization that is not `Recorded`. -/
theorem read_alike_iff :
    ReadAlike tables userId organizationId row ownerColumn ↔
      (getOrgRole tables userId organizationId ≠ none → row.organizationId = organizationId →
        Recorded userId row ownerColumn) := by
  cases hrole : getOrgRole tables userId organizationId with
  | none =>
    have houtsider : ∀ rows base,
        (row.organizationId = organizationId → ¬Allowed tables userId row) ∧
        row ∉ filterVisible tables userId organizationId rows ∧
        ¬Listed tables userId organizationId row ownerColumn ∧
        ¬Found tables userId organizationId row base ownerColumn := by
      intro rows base
      refine ⟨fun horg hallowed => ?_, ?_, ?_, ?_⟩
      · subst horg
        rw [Allowed, canAccess, hrole] at hallowed
        exact absurd hallowed Bool.false_ne_true
      · rw [filterVisible, hrole]
        exact not_mem_nil
      · rintro ⟨filter, hfilter, -⟩
        rw [applyListFilter, hrole] at hfilter
        cases hfilter
      · rintro ⟨tiers, htiers, -⟩
        rw [visibleWhere, hrole] at htiers
        cases htiers
    refine iff_of_true ⟨fun h => absurd hrole h, fun _ => houtsider, fun _ rows base _ => ?_⟩
      fun h => absurd rfl h
    exact (houtsider rows base).2
  | some role =>
    have helsewhere : row.organizationId ≠ organizationId → ∀ rows base, Satisfies row base →
        row ∉ filterVisible tables userId organizationId rows ∧
        ¬Listed tables userId organizationId row ownerColumn ∧
        ¬Found tables userId organizationId row base ownerColumn := by
      intro hne rows base hbase
      rw [mem_filterVisible_iff hrole, listed_iff hrole, found_iff hrole hbase]
      exact ⟨fun h => hne h.2.1, fun h => hne h.1, fun h => hne h.1⟩
    by_cases horg : row.organizationId = organizationId
    · subst horg
      have hallowed : Allowed tables userId row ↔ Sees tables userId row role row.ownerId :=
        allowed_iff hrole
      constructor
      · intro h _ _
        have hnone : Satisfies row [] := fun _ _ h => (nomatch h)
        obtain ⟨-, hlisted, hfound⟩ := h.member (by rw [hrole]; exact some_ne_none role) rfl
          [row] [] (mem_singleton_self row) hnone
        rw [hallowed, listed_iff hrole] at hlisted
        rw [hallowed, found_iff hrole hnone] at hfound
        refine ⟨fun hv => ?_, sees_congr.mp (hlisted.trans (and_iff_right rfl))⟩
        -- a row without a visibility is everybody's, and no find has it
        have hsees : Sees tables userId row role row.ownerId := by
          rw [Sees, hv, if_neg (some_ne_none _).symm]
          exact .inr (.inl rfl)
        exact (hfound.mp hsees).2.1 hv
      · intro h
        obtain ⟨hv, howner⟩ := h (some_ne_none role) rfl
        have hsame : Sees tables userId row role row.ownerId ↔
            Sees tables userId row role (ownerColumn.bind row.owner) := sees_congr.mpr howner
        refine ⟨fun _ _ rows base hrow hbase => ?_, fun h => ?_, helsewhere⟩
        · rw [hallowed, mem_filterVisible_iff hrole, listed_iff hrole, found_iff hrole hbase, hsame]
          exact ⟨⟨fun h => ⟨hrow, rfl, h⟩, fun h => h.2.2⟩, ⟨fun h => ⟨rfl, h⟩, fun h => h.2⟩,
            ⟨fun h => ⟨rfl, hv, h⟩, fun h => h.2.2⟩⟩
        · rw [hrole] at h
          cases h
    · refine iff_of_true ⟨fun _ h => absurd h horg, fun h => ?_, helsewhere⟩
        fun _ h => absurd h horg
      rw [hrole] at h
      cases h

def benMember : Tables where
  userOrgs := [⟨1, 7, { role := .member, isActive := true, inviteAccepted := true
                        inviteToken := none }⟩]
  userTeams := []
  teams := []

/-- A row with no visibility: Ben may open it and lists show it, and no count has it. -/
theorem unset_visibility_not_found :
    ¬ReadAlike benMember 1 7
      { organizationId := 7, visibility := none, teamId := none, ownerUserId := none
        createdBy := none } (some .createdBy) := by
  intro h
  have hnone : Satisfies { organizationId := 7, visibility := none, teamId := none
                           ownerUserId := none, createdBy := none } [] := fun _ _ h => (nomatch h)
  obtain ⟨-, -, hfound⟩ := h.member (by decide) rfl _ [] (mem_singleton_self _) hnone
  exact ((found_iff rfl hnone).mp (hfound.mp rfl)).2.1 rfl

end Almyty.Access
