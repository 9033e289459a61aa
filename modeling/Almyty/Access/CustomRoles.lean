import Almyty.Access.Membership
import Almyty.Lib.JsText
import Almyty.Lib.Steps
import Almyty.Lib.Throws

/-!
# Custom roles: `custom-role.service.ts`, `policy-evaluator.service.ts`

An organization's admins write roles, and a role is as strong as the permissions it carries: a
`role:owner` grant passes the owner-only checks, and wildcards on either side of the colon cover
more than they name. What only an owner holds, only an owner may grant, and every write that grants
is checked for it: a role's permissions as they are stored, a role switched back on, a role handed
out. `owner_only_granted_by_owner` says so of any sequence of calls, and `organizations_apart` that
no call reaches into another organization.

Mirroring notes:
- Calls come one after another; the database may throw at the one write a call makes.
- `done` keeps who wrote and who handed out what: the tables do not say it of permissions.
- Deleting a role deletes its assignments (`ON DELETE CASCADE`).
- The ABAC policies of the same service are left out.
-/

namespace Almyty.Access

open Almyty.Lib Throws List

/-! ## The evaluator -/

/-- `split`: the resource and the action; without a colon any action. -/
def split (perm : String) : String × String :=
  if ':' ∈ perm.toList then
    (String.ofList (perm.toList.takeWhile (· ≠ ':')),
      String.ofList ((perm.toList.dropWhile (· ≠ ':')).drop 1))
  else (perm, "*")

def covers (required grant : String) : Bool :=
  let (reqRes, reqAct) := split required
  let (gRes, gAct) := split grant
  grant = "*" || ((gRes = "*" || gRes = reqRes) && (gAct = "*" || gAct = reqAct))

def permits (grantedPermissions : List String) (required : String) : Bool :=
  required ≠ "" && grantedPermissions.any (covers required)

theorem permits_iff {grants : List String} {required : String} :
    permits grants required = true ↔ required ≠ "" ∧ ∃ grant ∈ grants, covers required grant := by
  rw [permits, Bool.and_eq_true, decide_eq_true_iff, any_eq_true]

/-! ## The service -/

structure CustomRole where
  organizationId : Uuid
  name : String
  description : Option String
  permissions : List String
  active : Bool

structure CustomRoleAssignment where
  organizationId : Uuid
  userId : Uuid
  customRoleId : Uuid
  assignedBy : Option Uuid
  deriving DecidableEq

inductive Granted
  | wrote (organizationId roleId : Uuid) (actorRole : Option OrganizationRole)
  | assigned (organizationId roleId userId : Uuid) (actorRole : Option OrganizationRole)

/-- The tables, and what was granted so far. -/
structure RoleTables where
  roles : List (Uuid × CustomRole) := []
  assignments : List CustomRoleAssignment := []
  nextId : Uuid := 0
  done : List Granted := []

inductive RbacError
  | badRequest (message : String)
  | conflict (message : String)
  | notFound (message : String)
  | forbidden (message : String)
  | database

abbrev Rbac := Throws RbacError RoleTables

structure CreateCustomRoleInput where
  name : Option String := none
  description : Option String := none
  permissions : Option (List String) := none

structure UpdateCustomRoleInput where
  name : Option String := none
  description : Option String := none
  permissions : Option (List String) := none
  active : Option Bool := none

/-- `OWNER_ONLY_GRANTS`. -/
def ownerOnlyGrants : List String := ["role:owner", "admin", "billing"]

/-- Trimmed, without the empty ones, each once, in order of code units. -/
def normalizePermissions (perms : List String) : List String :=
  (((perms.map Js.trimmed).filter (· ≠ "")).eraseDups).insertionSort
    fun p q => Js.codeUnits p ≤ Js.codeUnits q

def assertMayGrant (perms : List String) (actorRole : Option OrganizationRole) : Rbac Unit :=
  if actorRole = some .owner then pure ()
  else
    let exceeds := ownerOnlyGrants.filter (permits perms)
    if exceeds ≠ [] then
      throw (.forbidden ("Only an owner can grant " ++ ", ".intercalate exceeds ++
        " (directly or through a wildcard)"))
    else pure ()

def RoleTables.refuses (tables : RoleTables) (id : Uuid) (row : CustomRole) : Bool :=
  64 < row.name.length ||
    tables.roles.any fun e =>
      e.1 ≠ id && e.2.organizationId = row.organizationId && e.2.name = row.name

def saveRole (fails : Bool) (id : Uuid) (row : CustomRole) : Rbac Unit := do
  let tables ← get
  if fails || tables.refuses id row then throw .database
  else modify fun tables => { tables with roles := Assoc.put tables.roles id row }

def noteGranted (granted : Granted) : Rbac Unit :=
  modify fun tables => { tables with done := tables.done ++ [granted] }

def generateId : Rbac Uuid := do
  let tables ← get
  modify fun tables => { tables with nextId := tables.nextId + 1 }
  pure tables.nextId

def createRole (fails : Bool) (organizationId : Uuid) (input : CreateCustomRoleInput)
    (actorRole : Option OrganizationRole) : Rbac (Uuid × CustomRole) := do
  let name := Js.trimmed (input.name.getD "")
  if name = "" then throw (.badRequest "role name is required")
  else
    let permissions := normalizePermissions (input.permissions.getD [])
    assertMayGrant permissions actorRole
    let tables ← get
    if tables.roles.any fun e => e.2.organizationId = organizationId && e.2.name = name then
      throw (.conflict ("role \"" ++ name ++ "\" already exists"))
    else
      let row := { organizationId, name, description := input.description, permissions
                   active := true }
      let id ← generateId
      saveRole fails id row
      noteGranted (.wrote organizationId id actorRole)
      pure (id, row)

def getRole (organizationId id : Uuid) : Rbac CustomRole := do
  let tables ← get
  match tables.roles.lookup id with
  | some row =>
    if row.organizationId = organizationId then pure row
    else throw (.notFound "custom role not found")
  | none => throw (.notFound "custom role not found")

def rewritten (row : CustomRole) (patch : UpdateCustomRoleInput)
    (actorRole : Option OrganizationRole) : Rbac CustomRole :=
  match patch.permissions with
  | none => pure row
  | some perms => do
    assertMayGrant (normalizePermissions perms) actorRole
    pure { row with permissions := normalizePermissions perms }

def switched (row : CustomRole) (patch : UpdateCustomRoleInput)
    (actorRole : Option OrganizationRole) : Rbac CustomRole :=
  match patch.active with
  | none => pure row
  | some active => do
    -- switching a role back on hands out what it carries again
    if active && !row.active then assertMayGrant row.permissions actorRole
    pure { row with active := active }

def updateRole (fails : Bool) (organizationId id : Uuid) (patch : UpdateCustomRoleInput)
    (actorRole : Option OrganizationRole) : Rbac CustomRole := do
  let row ← getRole organizationId id
  let row ← rewritten
    { row with name := (patch.name.map Js.trimmed).getD row.name
               description := patch.description.or row.description } patch actorRole
  let row ← switched row patch actorRole
  saveRole fails id row
  if patch.permissions.isSome then noteGranted (.wrote organizationId id actorRole)
  pure row

def deleteRole (fails : Bool) (organizationId id : Uuid) : Rbac Unit := do
  let _ ← getRole organizationId id
  if fails then throw .database
  else modify fun tables =>
    { tables with roles := Assoc.erase tables.roles id
                  assignments := tables.assignments.filter (·.customRoleId ≠ id) }

def assign (fails : Bool) (organizationId roleId userId : Uuid) (assignedBy : Option Uuid)
    (actorRole : Option OrganizationRole) : Rbac CustomRoleAssignment := do
  let role ← getRole organizationId roleId
  assertMayGrant role.permissions actorRole
  let tables ← get
  match tables.assignments.find? fun a => a.customRoleId = roleId && a.userId = userId with
  | some existing => pure existing
  | none =>
    let row := { organizationId, userId, customRoleId := roleId, assignedBy }
    if fails then throw .database
    else
      modify fun tables => { tables with assignments := tables.assignments ++ [row] }
      noteGranted (.assigned organizationId roleId userId actorRole)
      pure row

def unassign (fails : Bool) (organizationId roleId userId : Uuid) : Rbac Unit := do
  let tables ← get
  match tables.assignments.find? fun a =>
      a.organizationId = organizationId && a.customRoleId = roleId && a.userId = userId with
  | none => throw (.notFound "assignment not found")
  | some row =>
    if fails then throw .database
    else modify fun tables => { tables with assignments := tables.assignments.erase row }

def RoleTables.activeRolesOf (tables : RoleTables) (organizationId userId : Uuid) :
    List (Uuid × CustomRole) :=
  let roleIds := (tables.assignments.filter fun a =>
    a.organizationId = organizationId && a.userId = userId).map (·.customRoleId)
  (tables.roles.filter fun e => e.1 ∈ roleIds).filter (·.2.active)

def RoleTables.getEffectivePermissions (tables : RoleTables) (organizationId userId : Uuid) :
    List String :=
  (((tables.activeRolesOf organizationId userId).flatMap (·.2.permissions)).eraseDups).insertionSort
    fun p q => Js.codeUnits p ≤ Js.codeUnits q

def RoleTables.hasPermission (tables : RoleTables) (organizationId userId : Uuid)
    (permission : String) : Bool :=
  permits (tables.getEffectivePermissions organizationId userId) permission

/-! ## Sequences of calls -/

inductive RbacRequest
  | createRole (input : CreateCustomRoleInput)
  | updateRole (id : Uuid) (patch : UpdateCustomRoleInput)
  | deleteRole (id : Uuid)
  | assign (roleId userId : Uuid) (assignedBy : Option Uuid)
  | unassign (roleId userId : Uuid)

structure RbacCall where
  organizationId : Uuid
  actorRole : Option OrganizationRole
  fails : Bool
  request : RbacRequest

def RbacCall.run (call : RbacCall) : Rbac Unit :=
  match call.request with
  | .createRole input => do
    let _ ← createRole call.fails call.organizationId input call.actorRole
    pure ()
  | .updateRole id patch => do
    let _ ← updateRole call.fails call.organizationId id patch call.actorRole
    pure ()
  | .deleteRole id => deleteRole call.fails call.organizationId id
  | .assign roleId userId assignedBy => do
    let _ ← assign call.fails call.organizationId roleId userId assignedBy call.actorRole
    pure ()
  | .unassign roleId userId => unassign call.fails call.organizationId roleId userId

def handle (tables : RoleTables) (call : RbacCall) : RoleTables := (outcome call.run tables).2

/-! ## Who granted what -/

def RoleTables.lastWriter (tables : RoleTables) (roleId : Uuid) :
    Option (Uuid × Option OrganizationRole) :=
  (tables.done.filterMap fun
    | .wrote organizationId id actorRole => if id = roleId then some (organizationId, actorRole) else none
    | .assigned .. => none).getLast?

def RoleTables.lastAssigner (tables : RoleTables) (roleId userId : Uuid) :
    Option (Uuid × Option OrganizationRole) :=
  (tables.done.filterMap fun
    | .wrote .. => none
    | .assigned organizationId id user actorRole =>
      if id = roleId ∧ user = userId then some (organizationId, actorRole) else none).getLast?

def RoleTables.Confers (tables : RoleTables) (organizationId userId : Uuid) (permission : String)
    (roleId : Uuid) (role : CustomRole) : Prop :=
  (roleId, role) ∈ tables.roles ∧ role.active = true ∧
    (∃ a ∈ tables.assignments, a.organizationId = organizationId ∧ a.userId = userId ∧
      a.customRoleId = roleId) ∧
    permits role.permissions permission = true

/-! ## The steps of a call -/

/-- Who may hand out these permissions: an owner whatever they are, anybody else when they cover
nothing that only an owner holds. -/
def MayGrant (perms : List String) (actorRole : Option OrganizationRole) : Prop :=
  actorRole = some .owner ∨ ∀ p ∈ ownerOnlyGrants, permits perms p = false

variable {tables : RoleTables} {α : Type} {P : RoleTables → Prop}

theorem after_assertMayGrant {perms : List String} {actorRole : Option OrganizationRole}
    {Q : Except RbacError Unit → RoleTables → Prop} (herror : ∀ e, Q (.error e) tables)
    (hok : MayGrant perms actorRole → Q (.ok ()) tables) :
    After (assertMayGrant perms actorRole) tables Q := by
  unfold assertMayGrant
  split
  next howner => exact hok (.inl howner)
  next =>
    dsimp only
    split
    next => exact herror _
    next hnone =>
      refine hok (.inr fun p hp => ?_)
      rw [ne_eq, not_not, filter_eq_nil_iff] at hnone
      exact eq_false_of_ne_true (hnone p hp)

variable {fails : Bool} {row : CustomRole}

variable {id o : Uuid}

@[simp] theorem after_saveRole {Q : Except RbacError Unit → RoleTables → Prop} :
    After (saveRole fails id row) tables Q ↔
      if fails || tables.refuses id row then Q (.error .database) tables
      else Q (.ok ()) { tables with roles := Assoc.put tables.roles id row } := by
  unfold saveRole
  rw [after_bind, after_get, next_ok]
  split <;> exact Iff.rfl

@[simp] theorem after_noteGranted {granted : Granted}
    {Q : Except RbacError Unit → RoleTables → Prop} :
    After (noteGranted granted) tables Q ↔
      Q (.ok ()) { tables with done := tables.done ++ [granted] } := Iff.rfl

@[simp] theorem after_generateId {Q : Except RbacError Uuid → RoleTables → Prop} :
    After generateId tables Q ↔
      Q (.ok tables.nextId) { tables with nextId := tables.nextId + 1 } := Iff.rfl

variable {Q : Except RbacError CustomRole → RoleTables → Prop}

theorem after_getRole (herror : ∀ e, Q (.error e) tables)
    (hok : ∀ row, tables.roles.lookup id = some row → row.organizationId = o → Q (.ok row) tables) :
    After (getRole o id) tables Q := by
  unfold getRole
  rw [after_bind, after_get, next_ok]
  split
  next row hrow =>
    split
    next horg => exact hok row hrow horg
    next => exact herror _
  next => exact herror _

/-! ## What every call keeps -/

theorem lastWriter_wrote {actorRole : Option OrganizationRole} (id' : Uuid) :
    ({ tables with done := tables.done ++ [.wrote o id actorRole] } : RoleTables).lastWriter id' =
      if id = id' then some (o, actorRole) else tables.lastWriter id' := by
  unfold RoleTables.lastWriter
  rw [filterMap_append, List.getLast?_append]
  by_cases h : id = id' <;> simp [h]

theorem lastWriter_assigned {u : Uuid} {actorRole : Option OrganizationRole} (id' : Uuid) :
    ({ tables with done := tables.done ++ [.assigned o id u actorRole] } : RoleTables).lastWriter
      id' = tables.lastWriter id' := by
  unfold RoleTables.lastWriter
  rw [filterMap_append]
  simp

def Granted.organizationId : Granted → Uuid
  | .wrote organizationId _ _ | .assigned organizationId _ _ _ => organizationId

def Granted.actorRole : Granted → Option OrganizationRole
  | .wrote _ _ actorRole | .assigned _ _ _ actorRole => actorRole

structure RoleTables.Inv (By : Uuid → Option OrganizationRole → Prop) (tables : RoleTables) :
    Prop where
  keys : (Assoc.keys tables.roles).Nodup
  fresh : ∀ id row, tables.roles.lookup id = some row → id < tables.nextId
  written : ∀ id row, tables.roles.lookup id = some row →
    ∃ actorRole, tables.lastWriter id = some (row.organizationId, actorRole) ∧
      MayGrant row.permissions actorRole ∧ By row.organizationId actorRole
  seated : ∀ a ∈ tables.assignments, ∃ row,
    tables.roles.lookup a.customRoleId = some row ∧ row.organizationId = a.organizationId

variable {By : Uuid → Option OrganizationRole → Prop}

theorem RoleTables.Inv.write {done : List Granted} (h : tables.Inv By) (hid : id < tables.nextId)
    (hsame : ∀ old, tables.roles.lookup id = some old → old.organizationId = row.organizationId)
    (hwritten : ∃ actorRole, ({ tables with done } : RoleTables).lastWriter id =
        some (row.organizationId, actorRole) ∧
      MayGrant row.permissions actorRole ∧ By row.organizationId actorRole)
    (hothers : ∀ other, other ≠ id →
      ({ tables with done } : RoleTables).lastWriter other = tables.lastWriter other) :
    ({ tables with roles := Assoc.put tables.roles id row, done } : RoleTables).Inv By where
  keys := Assoc.put_keys_nodup h.keys id row
  fresh other row' hrow' := by
    rw [Assoc.lookup_put] at hrow'
    split at hrow'
    next heq => exact heq ▸ hid
    next => exact h.fresh other row' hrow'
  written other row' hrow' := by
    rw [Assoc.lookup_put] at hrow'
    split at hrow'
    next heq =>
      obtain rfl : row = row' := Option.some.inj hrow'
      exact heq ▸ hwritten
    next hne =>
      obtain ⟨actorRole, hlast, hmay⟩ := h.written other row' hrow'
      exact ⟨actorRole, (hothers other hne).trans hlast, hmay⟩
  seated a ha := by
    obtain ⟨row', hrow', horg⟩ := h.seated a ha
    show ∃ row'', (Assoc.put tables.roles id row).lookup a.customRoleId = some row'' ∧ _
    rw [Assoc.lookup_put]
    split
    next heq => exact ⟨row, rfl, (hsame row' (heq ▸ hrow')).symm.trans horg⟩
    next => exact ⟨row', hrow', horg⟩

theorem inv_createRole {input : CreateCustomRoleInput} {actorRole : Option OrganizationRole}
    (hby : By o actorRole) (h : tables.Inv By) :
    After (createRole fails o input actorRole) tables fun _ t => t.Inv By := by
  unfold createRole
  dsimp only
  split
  · exact h
  rw [after_bind]
  refine after_assertMayGrant (fun _ => h) fun hmay => ?_
  rw [next_ok, after_bind, after_get, next_ok]
  split
  · exact h
  have hnext : ({ tables with nextId := tables.nextId + 1 } : RoleTables).Inv By :=
    { h with fresh := fun id row hrow => Nat.lt_succ_of_lt (h.fresh id row hrow) }
  simp only [after_bind, after_generateId, next_ok, after_saveRole, after_noteGranted]
  split
  · exact hnext
  have hnew : tables.roles.lookup tables.nextId = none := by
    by_contra hsome
    obtain ⟨row, hrow⟩ := Option.ne_none_iff_exists'.mp hsome
    exact absurd (h.fresh _ _ hrow) (Nat.lt_irrefl _)
  refine hnext.write (Nat.lt_succ_self _) (fun old hold => ?_) ⟨actorRole, ?_, hmay, hby⟩
    fun other hne => ?_
  · rw [show ({ tables with nextId := tables.nextId + 1 } : RoleTables).roles.lookup _ = _ from
      hnew] at hold
    cases hold
  · rw [lastWriter_wrote, if_pos rfl]
  · rw [lastWriter_wrote, if_neg (Ne.symm hne)]

variable {patch : UpdateCustomRoleInput}

theorem after_rewritten {actorRole : Option OrganizationRole} (herror : ∀ e, Q (.error e) tables)
    (hok : ∀ perms, (if patch.permissions.isSome then MayGrant perms actorRole
      else perms = row.permissions) → Q (.ok { row with permissions := perms }) tables) :
    After (rewritten row patch actorRole) tables Q := by
  unfold rewritten
  cases hperms : patch.permissions with
  | none => exact hok row.permissions (by rw [hperms]; exact rfl)
  | some perms =>
    rw [after_bind]
    refine after_assertMayGrant herror fun hmay => ?_
    exact hok (normalizePermissions perms) (by rw [hperms]; exact hmay)

theorem after_switched {actorRole : Option OrganizationRole} (herror : ∀ e, Q (.error e) tables)
    (hok : ∀ active, Q (.ok { row with active := active }) tables) :
    After (switched row patch actorRole) tables Q := by
  unfold switched
  cases patch.active with
  | none => exact hok row.active
  | some active =>
    dsimp only
    split
    · exact after_bind.mpr (after_assertMayGrant herror fun _ => hok active)
    · exact hok active

theorem inv_updateRole {actorRole : Option OrganizationRole} (hby : By o actorRole)
    (h : tables.Inv By) :
    After (updateRole fails o id patch actorRole) tables fun _ t => t.Inv By := by
  unfold updateRole
  rw [after_bind]
  refine after_getRole (fun _ => h) fun row hrow horg => ?_
  rw [next_ok, after_bind]
  refine after_rewritten (fun _ => h) fun perms hperms => ?_
  rw [next_ok, after_bind]
  refine after_switched (fun _ => h) fun active => ?_
  rw [next_ok, after_bind, after_saveRole]
  split
  · exact h
  have hid := h.fresh id row hrow
  have hsame (old : CustomRole) (hold : tables.roles.lookup id = some old) :
      old.organizationId = row.organizationId :=
    congrArg CustomRole.organizationId (Option.some.inj (hold.symm.trans hrow))
  cases hgiven : patch.permissions.isSome with
  | true =>
    rw [hgiven, if_pos rfl] at hperms
    simp only [next_ok, if_true, after_bind, after_noteGranted, after_pure]
    refine h.write hid hsame ⟨actorRole, ?_, hperms, horg.symm ▸ hby⟩ fun other hne => ?_
    · rw [lastWriter_wrote, if_pos rfl]
      exact congrArg (fun o => some (o, actorRole)) horg.symm
    · rw [lastWriter_wrote, if_neg (Ne.symm hne)]
  | false =>
    rw [hgiven, if_neg Bool.false_ne_true] at hperms
    simp only [next_ok, Bool.false_eq_true, if_false, after_pure]
    refine h.write hid hsame ?_ fun other hne => rfl
    rw [hperms]
    exact h.written id row hrow

theorem inv_deleteRole (h : tables.Inv By) :
    After (deleteRole fails o id) tables fun _ t => t.Inv By := by
  unfold deleteRole
  rw [after_bind]
  refine after_getRole (fun _ => h) fun row _ _ => ?_
  rw [next_ok]
  split
  · exact h
  have hleft {other : Uuid} {row' : CustomRole}
      (hrow' : (Assoc.erase tables.roles id).lookup other = some row') :
      tables.roles.lookup other = some row' := by
    rw [Assoc.lookup_erase] at hrow'
    split at hrow'
    · cases hrow'
    · exact hrow'
  refine ⟨Assoc.filter_keys_nodup h.keys _, fun other row' hrow' => ?_, fun other row' hrow' => ?_,
    fun a ha => ?_⟩
  · exact h.fresh other row' (hleft hrow')
  · exact h.written other row' (hleft hrow')
  · obtain ⟨hmem, hne⟩ := mem_filter.mp ha
    obtain ⟨row', hrow', horg⟩ := h.seated a hmem
    refine ⟨row', ?_, horg⟩
    show (Assoc.erase tables.roles id).lookup a.customRoleId = some row'
    rw [Assoc.lookup_erase, if_neg (of_decide_eq_true hne), hrow']

theorem inv_assign {roleId userId : Uuid} {assignedBy : Option Uuid}
    {actorRole : Option OrganizationRole} (h : tables.Inv By) :
    After (assign fails o roleId userId assignedBy actorRole) tables fun _ t => t.Inv By := by
  unfold assign
  rw [after_bind]
  refine after_getRole (fun _ => h) fun row hrow horg => ?_
  rw [next_ok, after_bind]
  refine after_assertMayGrant (fun _ => h) fun _ => ?_
  rw [next_ok, after_bind, after_get, next_ok]
  split
  · exact h
  dsimp only
  split
  · exact h
  simp only [after_bind, after_modify, next_ok, after_noteGranted]
  refine ⟨h.keys, h.fresh, fun id row' hrow' => ?_, fun a ha => ?_⟩
  · obtain ⟨actorRole', hlast, hmay⟩ := h.written id row' hrow'
    exact ⟨actorRole', (lastWriter_assigned id).trans hlast, hmay⟩
  · rcases mem_append.mp ha with ha | ha
    · exact h.seated a ha
    · obtain rfl := mem_singleton.mp ha
      exact ⟨row, hrow, horg⟩

theorem inv_unassign {roleId userId : Uuid} (h : tables.Inv By) :
    After (unassign fails o roleId userId) tables fun _ t => t.Inv By := by
  unfold unassign
  rw [after_bind, after_get, next_ok]
  split
  · exact h
  split
  · exact h
  · exact { h with seated := fun a ha => h.seated a (mem_of_mem_erase ha) }

theorem inv_handle {call : RbacCall} (hby : By call.organizationId call.actorRole)
    (h : tables.Inv By) : (handle tables call).Inv By := by
  obtain ⟨o, actorRole, fails, request⟩ := call
  have hanswer {β : Type} {x : Rbac β} (hx : After x tables fun _ t => t.Inv By) :
      After (x >>= fun _ => pure ()) tables fun _ t => t.Inv By := by
    rw [after_bind]
    refine hx.mono fun r t ht => ?_
    cases r <;> exact ht
  cases request with
  | createRole input => exact hanswer (inv_createRole hby h)
  | updateRole id patch => exact hanswer (inv_updateRole hby h)
  | deleteRole id => exact inv_deleteRole h
  | assign roleId userId assignedBy => exact hanswer (inv_assign h)
  | unassign roleId userId => exact inv_unassign h

theorem mem_activeRolesOf {u : Uuid} {entry : Uuid × CustomRole} :
    entry ∈ tables.activeRolesOf o u ↔ entry ∈ tables.roles ∧ entry.2.active = true ∧
      ∃ a ∈ tables.assignments, a.organizationId = o ∧ a.userId = u ∧ a.customRoleId = entry.1 := by
  unfold RoleTables.activeRolesOf
  simp only [mem_filter, mem_map, Bool.and_eq_true, decide_eq_true_iff]
  constructor
  · intro ⟨⟨hmem, a, ⟨ha, ho, hu⟩, hid⟩, hactive⟩
    exact ⟨hmem, hactive, a, ha, ho, hu, hid⟩
  · intro ⟨hmem, hactive, a, ha, ho, hu, hid⟩
    exact ⟨⟨hmem, a, ⟨ha, ho, hu⟩, hid⟩, hactive⟩

theorem hasPermission_iff {u : Uuid} {p : String} :
    tables.hasPermission o u p = true ↔ ∃ id role, tables.Confers o u p id role := by
  unfold RoleTables.hasPermission RoleTables.getEffectivePermissions
  simp only [permits_iff, mem_insertionSort, mem_eraseDups, mem_flatMap, RoleTables.Confers]
  constructor
  · intro ⟨hp, grant, ⟨entry, hentry, hgrant⟩, hcovers⟩
    obtain ⟨hmem, hactive, hseat⟩ := mem_activeRolesOf.mp hentry
    exact ⟨entry.1, entry.2, hmem, hactive, hseat, hp, grant, hgrant, hcovers⟩
  · intro ⟨id, role, hmem, hactive, hseat, hp, grant, hgrant, hcovers⟩
    exact ⟨hp, grant, ⟨(id, role), mem_activeRolesOf.mpr ⟨hmem, hactive, hseat⟩, hgrant⟩, hcovers⟩

/-- What only an owner holds was written into a role by an owner of the organization. -/
theorem RoleTables.Inv.written_by_owner {u : Uuid} {role : CustomRole} {p : String}
    (h : tables.Inv By) (hp : p ∈ ownerOnlyGrants) (hconfers : tables.Confers o u p id role) :
    tables.lastWriter id = some (o, some .owner) ∧ By o (some .owner) := by
  obtain ⟨hmem, -, ⟨a, ha, horg, -, hid⟩, hpermits⟩ := hconfers
  have hrole := Assoc.lookup_of_mem h.keys hmem
  obtain ⟨row, hrow, hseat⟩ := h.seated a ha
  obtain rfl : row = role := Option.some.inj (hrow.symm.trans (hid ▸ hrole))
  obtain ⟨actorRole, hlast, hmay, hby⟩ := h.written id row hrole
  rw [hseat, horg] at hlast hby
  rcases hmay with rfl | hmay
  · exact ⟨hlast, hby⟩
  · rw [hmay p hp] at hpermits
    cases hpermits

theorem owner_only_granted_by_owner (calls : List RbacCall) (o u : Uuid) (p : String)
    (hp : p ∈ ownerOnlyGrants) (h : (Steps.run handle {} calls).hasPermission o u p = true) :
    (∃ id role, (Steps.run handle {} calls).Confers o u p id role) ∧
    (∀ id role, (Steps.run handle {} calls).Confers o u p id role →
      (Steps.run handle {} calls).lastWriter id = some (o, some .owner) ∧
      ((Steps.run handle {} calls).lastAssigner id u = some (o, some .owner) ∨
        (Steps.run handle {} calls).lastWriter id = some (o, some .owner))) ∧
    ∃ call ∈ calls, call.organizationId = o ∧ call.actorRole = some .owner := by
  have hinv : (Steps.run handle {} calls).Inv fun o actorRole =>
      ∃ call ∈ calls, call.organizationId = o ∧ call.actorRole = actorRole := by
    refine Steps.run_invariant _ (fun _ _ hs hby => inv_handle hby hs) ?_
      (Steps.along_iff.mpr fun pre call post heq => ⟨call, ?_, rfl, rfl⟩)
    · exact { keys := nodup_nil, fresh := fun _ _ hrow => absurd hrow.symm nofun
              written := fun _ _ hrow => absurd hrow.symm nofun
              seated := fun a ha => absurd ha not_mem_nil }
    · rw [heq]
      exact mem_append_right _ mem_cons_self
  obtain ⟨id, role, hconfers⟩ := hasPermission_iff.mp h
  refine ⟨⟨id, role, hconfers⟩, fun id role hconfers => ?_, (hinv.written_by_owner hp hconfers).2⟩
  have hwriter := (hinv.written_by_owner hp hconfers).1
  exact ⟨hwriter, .inr hwriter⟩

/-- An admin hands out a role of their own, and an owner then lets it do everything. -/
theorem root_role_granted_by_owner :
    ∃ id, (Steps.run handle {} [
      ⟨7, some .admin, false, .createRole { name := some "root", permissions := some ["agents:*"] }⟩,
      ⟨7, some .admin, false, .assign 0 1 none⟩,
      ⟨7, some .owner, false, .updateRole 0 { permissions := some [" * "] }⟩]).lastWriter id =
      some (7, some .owner) :=
  have ⟨⟨id, role, hconfers⟩, hwritten, _⟩ :=
    owner_only_granted_by_owner _ 7 1 "billing" (by decide) (by decide)
  ⟨id, (hwritten id role hconfers).1⟩

/-! ## Other organizations -/

variable {other : Uuid}

/-- What an organization has in the tables is as it was. -/
structure Apart (o : Uuid) (tables t : RoleTables) : Prop where
  roles : ∀ e, e.2.organizationId = o → (e ∈ t.roles ↔ e ∈ tables.roles)
  assignments : ∀ a, a.organizationId = o → (a ∈ t.assignments ↔ a ∈ tables.assignments)

theorem Apart.refl : Apart o tables tables := ⟨fun _ _ => Iff.rfl, fun _ _ => Iff.rfl⟩

theorem Apart.symm {t : RoleTables} (h : Apart o tables t) : Apart o t tables :=
  ⟨fun e he => (h.roles e he).symm, fun a ha => (h.assignments a ha).symm⟩

theorem RoleTables.Inv.put_apart {t : RoleTables} (h : tables.Inv By)
    (hroles : t.roles = Assoc.put tables.roles id row)
    (hassignments : t.assignments = tables.assignments) (hrow : row.organizationId ≠ o)
    (hold : ∀ old, tables.roles.lookup id = some old → old.organizationId ≠ o) :
    Apart o tables t := by
  refine ⟨fun e he => ?_, fun a _ => by rw [hassignments]⟩
  have hput := Assoc.put_keys_nodup h.keys id row
  have hmem {l : List (Uuid × CustomRole)} (hl : (Assoc.keys l).Nodup) :
      e ∈ l ↔ l.lookup e.1 = some e.2 := ⟨Assoc.lookup_of_mem hl, Assoc.mem_of_lookup⟩
  rw [hroles, hmem hput, hmem h.keys, Assoc.lookup_put]
  split
  next hid =>
    refine iff_of_false (fun hsome => hrow ?_) fun hsome => hold e.2 (hid ▸ hsome) he
    rw [Option.some.inj hsome, he]
  next => exact Iff.rfl

theorem createRole_apart {input : CreateCustomRoleInput} {actorRole : Option OrganizationRole}
    (h : tables.Inv By) (hne : other ≠ o) :
    After (createRole fails other input actorRole) tables fun _ t => Apart o tables t := by
  unfold createRole
  dsimp only
  split
  · exact .refl
  rw [after_bind]
  refine after_assertMayGrant (fun _ => .refl) fun _ => ?_
  rw [next_ok, after_bind, after_get, next_ok]
  split
  · exact .refl
  simp only [after_bind, after_generateId, next_ok, after_saveRole, after_noteGranted]
  split
  · exact ⟨fun _ _ => Iff.rfl, fun _ _ => Iff.rfl⟩
  · exact h.put_apart rfl rfl hne fun old hold => absurd (h.fresh _ _ hold) (Nat.lt_irrefl _)

theorem updateRole_apart {actorRole : Option OrganizationRole}
    (h : tables.Inv By) (hne : other ≠ o) :
    After (updateRole fails other id patch actorRole) tables fun _ t => Apart o tables t := by
  unfold updateRole
  rw [after_bind]
  refine after_getRole (fun _ => .refl) fun row hrow horg => ?_
  rw [next_ok, after_bind]
  refine after_rewritten (fun _ => .refl) fun perms _ => ?_
  rw [next_ok, after_bind]
  refine after_switched (fun _ => .refl) fun active => ?_
  rw [next_ok, after_bind, after_saveRole]
  have hold (old : CustomRole) (hold : tables.roles.lookup id = some old) :
      old.organizationId ≠ o := by
    rw [← Option.some.inj (hrow.symm.trans hold), horg]
    exact hne
  split
  · exact .refl
  · rw [next_ok]
    cases patch.permissions.isSome with
    | true => exact h.put_apart rfl rfl (horg.trans_ne hne) hold
    | false => exact h.put_apart rfl rfl (horg.trans_ne hne) hold

theorem deleteRole_apart (h : tables.Inv By) (hne : other ≠ o) :
    After (deleteRole fails other id) tables fun _ t => Apart o tables t := by
  unfold deleteRole
  rw [after_bind]
  refine after_getRole (fun _ => .refl) fun row hrow horg => ?_
  rw [next_ok]
  split
  · exact .refl
  have hgone {e : Uuid × CustomRole} (he : e.2.organizationId = o) (hmem : e ∈ tables.roles) :
      e.1 ≠ id := fun heq => by
    have hlookup := Assoc.lookup_of_mem h.keys hmem
    rw [heq, hrow] at hlookup
    exact hne (horg.symm.trans ((congrArg _ (Option.some.inj hlookup)).trans he))
  refine ⟨fun e he => ?_, fun a ha => ?_⟩
  · refine mem_filter.trans (and_iff_left_of_imp fun hmem => decide_eq_true (hgone he hmem))
  · refine mem_filter.trans (and_iff_left_of_imp fun hmem => decide_eq_true ?_)
    obtain ⟨row', hrow', horg'⟩ := h.seated a hmem
    exact hgone (horg'.trans ha) (Assoc.mem_of_lookup hrow')

theorem assign_apart {roleId userId : Uuid} {assignedBy : Option Uuid}
    {actorRole : Option OrganizationRole} (hne : other ≠ o) :
    After (assign fails other roleId userId assignedBy actorRole) tables
      fun _ t => Apart o tables t := by
  unfold assign
  rw [after_bind]
  refine after_getRole (fun _ => .refl) fun row _ _ => ?_
  rw [next_ok, after_bind]
  refine after_assertMayGrant (fun _ => .refl) fun _ => ?_
  rw [next_ok, after_bind, after_get, next_ok]
  split
  · exact .refl
  dsimp only
  split
  · exact .refl
  simp only [after_bind, after_modify, next_ok, after_noteGranted]
  refine ⟨fun _ _ => Iff.rfl, fun a ha => mem_append.trans (or_iff_left fun hnew => ?_)⟩
  rw [mem_singleton.mp hnew] at ha
  exact hne ha

theorem unassign_apart {roleId userId : Uuid} (hne : other ≠ o) :
    After (unassign fails other roleId userId) tables fun _ t => Apart o tables t := by
  unfold unassign
  rw [after_bind, after_get, next_ok]
  split
  · exact .refl
  next row hrow =>
    have horg := find?_some hrow
    simp only [Bool.and_eq_true, decide_eq_true_iff] at horg
    split
    · exact .refl
    · refine ⟨fun _ _ => Iff.rfl, fun a ha => mem_erase_of_ne fun heq => ?_⟩
      exact hne (horg.1.1.symm.trans ((congrArg _ heq.symm).trans ha))

theorem handle_apart {call : RbacCall} (h : tables.Inv By) (hne : call.organizationId ≠ o) :
    Apart o tables (handle tables call) := by
  obtain ⟨other, actorRole, fails, request⟩ := call
  have hanswer {β : Type} {x : Rbac β} (hx : After x tables fun _ t => Apart o tables t) :
      After (x >>= fun _ => pure ()) tables fun _ t => Apart o tables t := by
    rw [after_bind]
    refine hx.mono fun r t ht => ?_
    cases r <;> exact ht
  cases request with
  | createRole input => exact hanswer (createRole_apart h hne)
  | updateRole id patch => exact hanswer (updateRole_apart h hne)
  | deleteRole id => exact deleteRole_apart h hne
  | assign roleId userId assignedBy => exact hanswer (assign_apart hne)
  | unassign roleId userId => exact unassign_apart hne

theorem Apart.confers {By' : Uuid → Option OrganizationRole → Prop} {t : RoleTables} {u : Uuid}
    {p : String} {role : CustomRole} (hapart : Apart o tables t) (ht : t.Inv By')
    (hconfers : t.Confers o u p id role) : tables.Confers o u p id role := by
  obtain ⟨hmem, hactive, ⟨a, ha, horg, huser, hid⟩, hpermits⟩ := hconfers
  obtain ⟨row', hrow', hseat⟩ := ht.seated a ha
  have hsame := Option.some.inj (hrow'.symm.trans (hid ▸ Assoc.lookup_of_mem ht.keys hmem))
  refine ⟨(hapart.roles _ ?_).mp hmem, hactive, ⟨a, ?_, horg, huser, hid⟩, hpermits⟩
  · rw [← hsame, hseat, horg]
  · exact (hapart.assignments a horg).mp ha

/-- **Organizations are apart**: in any sequence of calls of any organizations, a call changes
nobody's permissions in another organization than its own. -/
theorem organizations_apart (calls : List RbacCall) (o : Uuid) :
    Steps.Along handle (fun tables call => call.organizationId ≠ o → ∀ u p,
      (handle tables call).hasPermission o u p = tables.hasPermission o u p) {} calls := by
  have hstart : ({} : RoleTables).Inv fun _ _ => True :=
    { keys := nodup_nil, fresh := fun _ _ hrow => absurd hrow.symm nofun
      written := fun _ _ hrow => absurd hrow.symm nofun
      seated := fun a ha => absurd ha not_mem_nil }
  refine Steps.along_of_invariant (P := fun _ _ => True) (fun tables => tables.Inv fun _ _ => True)
    (fun _ _ h _ => inv_handle trivial h) (fun tables call h _ hne u p => ?_) hstart
    (Steps.along_iff.mpr fun _ _ _ _ => trivial)
  have hapart := handle_apart h hne
  have hnext : (handle tables call).Inv _ := inv_handle trivial h
  rw [Bool.eq_iff_iff, hasPermission_iff, hasPermission_iff]
  exact ⟨fun ⟨id, role, hconfers⟩ => ⟨id, role, hapart.confers hnext hconfers⟩,
    fun ⟨id, role, hconfers⟩ => ⟨id, role, hapart.symm.confers h hconfers⟩⟩

end Almyty.Access
