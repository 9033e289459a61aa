import Almyty.Access.Membership
import Almyty.Lib.JsText
import Almyty.Lib.Steps
import Almyty.Lib.Throws

/-!
# SCIM users: `scim.service.ts`

An organization's identity provider makes, replaces, patches and deletes users, and a member it
deactivates is to lose their connections first: `offboardConnections` before the membership is saved
inactive, and no save when it throws. `replaceUser`, `patchUser` and `deleteUser` do so.
`createUser` for somebody who is a member already does not: with `active: false` it saves the
membership inactive and nothing else.

`offboardsFirst_iff` says of one call when it does what it should, and
`deactivation_offboards_first_iff` of any sequence of calls.

Mirroring notes:
- Every awaited step may throw, or not, as the call's `fails` says; what was saved before a throw
  stays saved.
- The body is not validated, so `active` is any JSON value, in memory as it was sent. What a boolean
  column takes of it is the database's (`stored`: a value, or a refusal); a name that is not a text
  is written as the column takes it (`text`).
- `sent` keeps what a call did in order: the parts the answer does not show.
- Calls come one after another.
-/

namespace Almyty.Access

open Almyty.Lib Throws Option

/-- What the service runs on. -/
structure Host where
  /-- What a boolean column holds of a value it is given; `none` when it refuses. -/
  stored : Json → Option Bool
  stored_bool : ∀ b, stored (.bool b) = some b
  /-- What a text column holds of a value. -/
  text : Json → String
  /-- `toLowerCase`. -/
  lowerCase : String → String

/-- What a call waits for, each of which may throw. -/
inductive Await
  | config
  | user
  | membership
  | domains
  | saveUser
  | existing
  | reactivate
  | deactivate
  | create
  | elsewhere
  | saveProfile
  | offboard
  | save

inductive ScimError
  | badRequest (message : String)
  | notFound (message : String)
  | forbidden (message : String)
  | conflict (message : String)
  | failed (at' : Await)

structure User where
  email : String
  firstName : String
  lastName : String
  hasPassword : Bool
  isVerified : Bool
  isActive : Bool
  deriving DecidableEq

inductive Sent
  | offboarded (userId organizationId : Uuid)
  | offboardFailed (userId organizationId : Uuid)
  | saved (userId organizationId : Uuid) (isActive : Bool)
  | notified (organizationId : Uuid) (email : String)

structure Seat where
  userId : Uuid
  organizationId : Uuid
  deriving DecidableEq

/-- The tables, and what the call in progress has done. -/
structure Directory where
  users : List (Uuid × User)
  memberships : List (Seat × Membership)
  sent : List Sent

namespace Directory

def membership (dir : Directory) (userId organizationId : Uuid) : Option Membership :=
  dir.memberships.lookup ⟨userId, organizationId⟩

def isActive (dir : Directory) (userId organizationId : Uuid) : Bool :=
  (dir.membership userId organizationId).any (·.isActive)

def userByEmail (dir : Directory) (email : String) : Option (Uuid × User) :=
  dir.users.find? (·.2.email = email)

def newId (dir : Directory) : Uuid :=
  ((dir.users.map (·.1) ++ dir.memberships.map (·.1.userId)).foldr max 0) + 1

def mayWriteProfile (dir : Directory) (userId : Uuid) : Bool :=
  (dir.memberships.filter fun row => row.1.userId = userId && row.2.isActive).length ≤ 1

/-- One more thing done. -/
def note (dir : Directory) (what : Sent) : Directory := { dir with sent := dir.sent ++ [what] }

def save (dir : Directory) (userId organizationId : Uuid) (row : Membership) : Directory :=
  { dir with memberships := Assoc.put dir.memberships ⟨userId, organizationId⟩ row }.note
    (.saved userId organizationId row.isActive)

end Directory

abbrev Scim := Throws ScimError Directory

/-! ## Bodies -/

structure ScimName where
  givenName : Option String
  familyName : Option String

structure ScimEmail where
  value : String
  primary : Bool

structure ScimUserInput where
  userName : Option String := none
  name : Option ScimName := none
  emails : List ScimEmail := []
  active : Option Json := none

structure ScimOperation where
  op : Option String
  path : Option String := none
  value : Option Json := none

structure ScimUser where
  id : Uuid
  userName : String
  givenName : String
  familyName : String
  displayName : String
  active : Json

def toScimUser (id : Uuid) (user : User) (isActive : Json) : ScimUser where
  id := id
  userName := user.email
  givenName := user.firstName
  familyName := user.lastName
  displayName := Js.trimmed (user.firstName ++ " " ++ user.lastName)
  active := isActive

def coerceBool : Option Json → Bool
  | some (.bool b) => b
  | some (.str s) => Js.toLowerCase s = "true"
  | some v => v.truthy
  | none => false

def activeOrTrue (input : ScimUserInput) : Json :=
  match input.active with
  | none | some .null => .bool true
  | some v => v

def provisioningRole (configured : Option OrganizationRole) : OrganizationRole :=
  match configured with
  | some .owner | none => .member
  | some role => role

/-! ## The service -/

/-- What one call is given beside its arguments: which of its awaits throw, what is configured
and whether the address is on a verified domain. -/
structure Call where
  fails : Await → Bool
  defaultRole : Option OrganizationRole
  coversEmail : Bool

section Service

variable (host : Host) (call : Call)

def await (at' : Await) : Scim Unit := if call.fails at' then throw (.failed at') else pure ()

/-- The address of the input, lower-cased; empty when it has none. -/
def emailOf (input : ScimUserInput) : String :=
  let primary := (input.emails.find? (·.primary)).or input.emails.head?
  let value := (primary.map (·.value)).getD ""
  host.lowerCase (if value ≠ "" then value else input.userName.getD "")

def extractEmail (input : ScimUserInput) : Scim String :=
  if emailOf host input = "" then throw (.badRequest "SCIM user requires userName or emails")
  else pure (emailOf host input)

def saveMembership (at' : Await) (userId organizationId : Uuid) (row : Membership)
    (isActive : Json) : Scim Unit := do
  await call at'
  match host.stored isActive with
  | none => throw (.failed at')
  | some b => modify (·.save userId organizationId { row with isActive := b })

def offboardConnections (userId organizationId : Uuid) : Scim Unit :=
  if call.fails .offboard then do
    modify (·.note (.offboardFailed userId organizationId))
    throw (.failed .offboard)
  else modify (·.note (.offboarded userId organizationId))

def notifyDeprovision (organizationId : Uuid) (user : User) : Scim Unit :=
  modify (·.note (.notified organizationId user.email))

/-- The lines a deactivation ends with: the connections first when the member leaves, then the
row, then the notice. -/
def saveLeaving (leaves : Bool) (userId organizationId : Uuid) (user : User) (row : Membership)
    (isActive : Json) : Scim Unit := do
  if leaves then offboardConnections call userId organizationId
  saveMembership host call .save userId organizationId row isActive
  if leaves then notifyDeprovision organizationId user

def loadMember (userId organizationId : Uuid) : Scim (User × Membership) := do
  await call .membership
  let dir ← get
  match dir.membership userId organizationId with
  | none => throw (.notFound "User not found")
  | some membership =>
    await call .user
    match dir.users.lookup userId with
    | none => throw (.notFound "User not found")
    | some user => pure (user, membership)

def newUser (input : ScimUserInput) (email : String) (isActive : Bool) : User where
  email := email
  firstName :=
    let given := (input.name.bind (·.givenName)).getD ""
    if given ≠ "" then given else String.ofList (email.toList.takeWhile (· ≠ '@'))
  lastName := (input.name.bind (·.familyName)).getD ""
  hasPassword := false
  isVerified := true
  isActive := isActive

def createIdentity (input : ScimUserInput) (email : String) : Scim (Uuid × User) := do
  await call .domains
  if !call.coversEmail then
    throw (.forbidden ("This address is not on a domain your organization has verified. Verify " ++
      "the domain under Settings, Single sign-on, or invite the person instead."))
  else
    await call .saveUser
    match host.stored (activeOrTrue input) with
    | none => throw (.failed .saveUser)
    | some isActive =>
      let dir ← get
      let row := (dir.newId, newUser input email isActive)
      modify fun dir => { dir with users := dir.users ++ [row] }
      pure row

def provisionedUser (organizationId : Uuid) (input : ScimUserInput) (email : String) :
    Scim (Uuid × User) := do
  await call .user
  let dir ← get
  match dir.userByEmail email with
  | some found =>
    await call .membership
    if (dir.membership found.1 organizationId).isNone then
      throw (.conflict ("An almyty account already exists for this address. Invite them to the " ++
        "organization instead; SCIM can only create new identities."))
    else pure found
  | none => createIdentity host call input email

def provision (organizationId : Uuid) (input : ScimUserInput) (id : Uuid) (user : User) :
    Scim ScimUser := do
  await call .existing
  let dir ← get
  match dir.membership id organizationId with
  | some existing =>
    -- re-provisioning somebody who is a member already: no connections are taken here
    if !existing.isActive then
      saveMembership host call .reactivate id organizationId existing (.bool true)
    if input.active = some (.bool false) then
      saveMembership host call .deactivate id organizationId existing (.bool false)
      pure (toScimUser id user (.bool false))
    else pure (toScimUser id user (.bool true))
  | none =>
    saveMembership host call .create id organizationId
      { role := provisioningRole call.defaultRole, isActive := true, inviteAccepted := true
        inviteToken := none } (activeOrTrue input)
    pure (toScimUser id user (activeOrTrue input))

def createUser (organizationId : Uuid) (input : ScimUserInput) : Scim ScimUser := do
  let email ← extractEmail host input
  await call .config
  let (id, user) ← provisionedUser host call organizationId input email
  provision host call organizationId input id user

def saveUser (userId : Uuid) (user : User) : Scim Unit := do
  await call .saveProfile
  modify fun dir => { dir with users := Assoc.put dir.users userId user }

def User.renamed (user : User) (name : Option ScimName) : User :=
  { user with
    firstName := (name.bind (·.givenName)).getD user.firstName
    lastName := (name.bind (·.familyName)).getD user.lastName }

def replaceActive (organizationId userId : Uuid) (input : ScimUserInput) (user : User)
    (membership : Membership) : Scim ScimUser :=
  match input.active with
  | none => pure (toScimUser userId user (.bool membership.isActive))
  | some active => do
    saveLeaving host call (membership.isActive && !active.truthy) userId organizationId user
      membership active
    pure (toScimUser userId user active)

def replaceUser (organizationId userId : Uuid) (input : ScimUserInput) : Scim ScimUser := do
  let (user, membership) ← loadMember call userId organizationId
  await call .elsewhere
  let dir ← get
  if dir.mayWriteProfile userId then
    saveUser call userId (user.renamed input.name)
    replaceActive host call organizationId userId input (user.renamed input.name) membership
  else replaceActive host call organizationId userId input user membership

def fieldOf (value : Option Json) (key : String) : Option Json :=
  match value with
  | some (.obj fields) => fields.lookup key
  | _ => none

structure Patched where
  user : User
  isActive : Bool
  profileTouched : Bool

def applyOperation (mayWriteProfile : Bool) (p : Patched) (op : ScimOperation) : Patched :=
  let operation := op.op.map Js.toLowerCase
  if operation ≠ some "replace" ∧ operation ≠ some "add" then p
  else if op.path = some "active" then { p with isActive := coerceBool op.value }
  else
    let p := match fieldOf op.value "active" with
      | some active => { p with isActive := coerceBool (some active) }
      | none => p
    if !mayWriteProfile then p
    else
      let p := match fieldOf (fieldOf op.value "name") "givenName" with
        | some given =>
          { p with user := { p.user with firstName := host.text given }, profileTouched := true }
        | none => p
      match fieldOf (fieldOf op.value "name") "familyName" with
      | some family =>
        { p with user := { p.user with lastName := host.text family }, profileTouched := true }
      | none => p

def patchUser (organizationId userId : Uuid) (operations : List ScimOperation) :
    Scim ScimUser := do
  let (user, membership) ← loadMember call userId organizationId
  let wasActive := membership.isActive
  await call .elsewhere
  let dir ← get
  let patched := operations.foldl (applyOperation host (dir.mayWriteProfile userId))
    { user := user, isActive := membership.isActive, profileTouched := false }
  if patched.profileTouched then saveUser call userId patched.user
  saveLeaving host call (wasActive && !patched.isActive) userId organizationId patched.user
    membership (.bool patched.isActive)
  pure (toScimUser userId patched.user (.bool patched.isActive))

def deleteUser (organizationId userId : Uuid) : Scim Unit := do
  let (user, membership) ← loadMember call userId organizationId
  saveLeaving host call membership.isActive userId organizationId user membership (.bool false)

end Service

inductive ScimRequest
  | createUser (organizationId : Uuid) (input : ScimUserInput)
  | replaceUser (organizationId userId : Uuid) (input : ScimUserInput)
  | patchUser (organizationId userId : Uuid) (operations : List ScimOperation)
  | deleteUser (organizationId userId : Uuid)

def ScimRequest.run (host : Host) (call : Call) : ScimRequest → Scim Unit
  | .createUser organizationId input => do
    let _ ← Access.createUser host call organizationId input
    pure ()
  | .replaceUser organizationId userId input => do
    let _ ← Access.replaceUser host call organizationId userId input
    pure ()
  | .patchUser organizationId userId operations => do
    let _ ← Access.patchUser host call organizationId userId operations
    pure ()
  | .deleteUser organizationId userId => Access.deleteUser host call organizationId userId

def serve (host : Host) (dir : Directory) (request : Call × ScimRequest) : Directory :=
  (outcome (request.2.run host request.1) { dir with sent := [] }).2

/-! ## What a deactivation should do -/

/-- What `events` has of the member's connections being taken: offboarded, and only then saved
inactive. -/
def TakenFirst (userId organizationId : Uuid) (events : List Sent) : Prop :=
  ∃ pre post, events = pre ++ .saved userId organizationId false :: post ∧
    .offboarded userId organizationId ∈ pre ∧ .saved userId organizationId false ∉ pre

structure OffboardsFirst (before after : Directory) : Prop where
  first : ∀ userId organizationId, before.isActive userId organizationId = true →
    after.isActive userId organizationId = false → TakenFirst userId organizationId after.sent
  stays : ∀ userId organizationId, .offboardFailed userId organizationId ∈ after.sent →
    before.isActive userId organizationId = true → after.isActive userId organizationId = true

structure DeactivatesByCreate (host : Host) (dir : Directory) (call : Call) (organizationId : Uuid)
    (input : ScimUserInput) : Prop where
  inactive : input.active = some (.bool false)
  address : emailOf host input ≠ ""
  member : ∃ found, dir.userByEmail (emailOf host input) = some found ∧
    dir.isActive found.1 organizationId = true
  ends : ∀ at' ∈ [Await.config, .user, .membership, .existing, .deactivate], call.fails at' = false

structure DeactivatesUnseen (host : Host) (dir : Directory) (call : Call)
    (organizationId userId : Uuid) (input : ScimUserInput) : Prop where
  unseen : ∃ active, input.active = some active ∧ active.truthy = true ∧
    host.stored active = some false
  member : dir.isActive userId organizationId = true
  known : (dir.users.lookup userId).isSome = true
  ends : ∀ at' ∈ [Await.membership, .user, .elsewhere, .save], call.fails at' = false
  profile : dir.mayWriteProfile userId = true → call.fails .saveProfile = false

/-- The calls that make a member inactive with their connections left. -/
def Forgets (host : Host) (dir : Directory) : Call × ScimRequest → Prop
  | (call, .createUser organizationId input) =>
    DeactivatesByCreate host dir call organizationId input
  | (call, .replaceUser organizationId userId input) =>
    DeactivatesUnseen host dir call organizationId userId input
  | (_, .patchUser ..) | (_, .deleteUser ..) => False

/-! ## The steps of a call -/

variable {host : Host} {call : Call} {dir dir' : Directory}

variable {Q : Except ScimError Unit → Directory → Prop}

@[simp] theorem after_await {at' : Await} :
    After (await call at') dir Q ↔
      if call.fails at' then Q (.error (.failed at')) dir else Q (.ok ()) dir := by
  unfold await
  split <;> exact Iff.rfl

variable {u o : Uuid} {row : Membership}

@[simp] theorem after_saveMembership {at' : Await} {v : Json} :
    After (saveMembership host call at' u o row v) dir Q ↔
      if call.fails at' then Q (.error (.failed at')) dir
      else match host.stored v with
        | none => Q (.error (.failed at')) dir
        | some b => Q (.ok ()) (dir.save u o { row with isActive := b }) := by
  unfold saveMembership
  rw [after_bind, after_await]
  split
  · exact Iff.rfl
  · cases host.stored v <;> exact Iff.rfl

@[simp] theorem after_offboardConnections :
    After (offboardConnections call u o) dir Q ↔
      if call.fails .offboard then Q (.error (.failed .offboard)) (dir.note (.offboardFailed u o))
      else Q (.ok ()) (dir.note (.offboarded u o)) := by
  unfold offboardConnections
  split <;> exact Iff.rfl

variable {user : User}

@[simp] theorem after_notifyDeprovision {o : Uuid} :
    After (notifyDeprovision o user) dir Q ↔ Q (.ok ()) (dir.note (.notified o user.email)) :=
  Iff.rfl

@[simp] theorem after_saveUser {u : Uuid} :
    After (saveUser call u user) dir Q ↔
      if call.fails .saveProfile then Q (.error (.failed .saveProfile)) dir
      else Q (.ok ()) { dir with users := Assoc.put dir.users u user } := by
  unfold saveUser
  rw [after_bind, after_await]
  split <;> exact Iff.rfl

@[simp] theorem memberships_note {what : Sent} :
    (dir.note what).memberships = dir.memberships := rfl

@[simp] theorem sent_note {what : Sent} : (dir.note what).sent = dir.sent ++ [what] := rfl

theorem isActive_eq (h : dir'.memberships = dir.memberships) (u o : Uuid) :
    dir'.isActive u o = dir.isActive u o := by
  unfold Directory.isActive Directory.membership
  rw [h]

@[simp] theorem isActive_note {what : Sent} (u o : Uuid) :
    (dir.note what).isActive u o = dir.isActive u o := rfl

theorem isActive_save (u' o' : Uuid) :
    (dir.save u o row).isActive u' o' =
      if u' = u ∧ o' = o then row.isActive else dir.isActive u' o' := by
  show ((Assoc.put dir.memberships ⟨u, o⟩ row).lookup ⟨u', o'⟩).any (·.isActive) = _
  simp only [Assoc.lookup_put, Seat.mk.injEq]
  split <;> rfl

@[simp] theorem sent_save :
    (dir.save u o row).sent = dir.sent ++ [.saved u o row.isActive] := rfl

theorem OffboardsFirst.of_keeps
    (h : ∀ u o, dir.isActive u o = true → dir'.isActive u o = true) : OffboardsFirst dir dir' where
  first u o hactive hnot := by
    rw [h u o hactive] at hnot
    exact absurd hnot (by decide)
  stays u o _ hactive := h u o hactive

theorem OffboardsFirst.of_eq (h : dir'.memberships = dir.memberships) : OffboardsFirst dir dir' :=
  .of_keeps fun u o hactive => by
    unfold Directory.isActive Directory.membership at hactive ⊢
    rwa [h]

theorem after_loadMember {Q : Except ScimError (User × Membership) → Directory → Prop} :
    After (loadMember call u o) dir Q ↔
      if call.fails .membership then Q (.error (.failed .membership)) dir
      else match dir.membership u o with
        | none => Q (.error (.notFound "User not found")) dir
        | some row =>
          if call.fails .user then Q (.error (.failed .user)) dir
          else match dir.users.lookup u with
            | none => Q (.error (.notFound "User not found")) dir
            | some user => Q (.ok (user, row)) dir := by
  unfold loadMember
  rw [after_bind, after_await]
  split
  · exact Iff.rfl
  · rw [next_ok, after_bind, after_get, next_ok]
    cases dir.membership u o with
    | none => exact Iff.rfl
    | some row =>
      simp only [after_bind, after_await]
      split
      · exact Iff.rfl
      · rw [next_ok]
        cases dir.users.lookup u <;> exact Iff.rfl

theorem isActive_of_membership (hrow : dir.membership u o = some row) :
    dir.isActive u o = row.isActive := by
  unfold Directory.isActive
  rw [hrow, any_some]

theorem OffboardsFirst.of_saved {b : Bool}
    (hsaved : ∀ u' o', dir'.isActive u' o' = if u' = u ∧ o' = o then b else dir.isActive u' o')
    (htaken : dir.isActive u o = true → b = false → TakenFirst u o dir'.sent)
    (hfailed : ∀ u o, .offboardFailed u o ∉ dir'.sent) : OffboardsFirst dir dir' where
  first u' o' hactive hnot := by
    rw [hsaved] at hnot
    split at hnot
    next heq =>
      obtain ⟨rfl, rfl⟩ := heq
      exact htaken hactive hnot
    next =>
      rw [hactive] at hnot
      exact absurd hnot (by decide)
  stays u o hmem := absurd hmem (hfailed u o)

theorem not_offboardsFirst (hactive : dir.isActive u o = true) (hnot : dir'.isActive u o = false)
    (hsent : .offboarded u o ∉ dir'.sent) :
    ¬OffboardsFirst dir dir' := by
  intro h
  obtain ⟨pre, post, hpre, hmem, -⟩ := h.first u o hactive hnot
  rw [hpre] at hsent
  exact hsent (List.mem_append_left _ hmem)

/-- The connections are taken first, unless `leaves` missed an active row that is saved inactive. -/
theorem after_saveLeaving {v : Json} {leaves : Bool} {before : Directory}
    (hmemberships : dir.memberships = before.memberships) (hrow : before.membership u o = some row)
    (hsent : dir.sent = []) :
    After (saveLeaving host call leaves u o user row v) dir (fun _ => OffboardsFirst before) ↔
    ¬(leaves = false ∧ row.isActive = true ∧ call.fails .save = false ∧
      host.stored v = some false) := by
  have hrowActive := isActive_of_membership hrow
  unfold saveLeaving
  cases leaves with
  | true =>
    refine iff_of_true ?_ (by simp)
    simp only [if_true, after_bind, after_offboardConnections, next_ok, next_error,
      after_saveMembership, after_notifyDeprovision]
    split
    · exact .of_eq hmemberships
    split
    · exact .of_eq hmemberships
    split
    · exact .of_eq hmemberships
    next b _ =>
      refine .of_saved (u := u) (o := o) (b := b) (fun u' o' => ?_) (fun _ hb => ?_) (by simp [hsent])
      · rw [isActive_note, isActive_save, isActive_note, isActive_eq hmemberships]
      · obtain rfl : b = false := hb
        exact ⟨[.offboarded u o], [.notified o user.email], by simp [hsent], by simp, by simp⟩
  | false =>
    simp only [Bool.false_eq_true, if_false, after_bind, after_pure, next_ok, next_error,
      after_saveMembership]
    split
    next hfails => simp [hfails, OffboardsFirst.of_eq hmemberships]
    next hfails =>
    split
    next hnone => simp [hnone, OffboardsFirst.of_eq hmemberships]
    next b hb =>
    have hsaved (u' o' : Uuid) : (dir.save u o { row with isActive := b }).isActive u' o' =
        if u' = u ∧ o' = o then b else before.isActive u' o' := by
      rw [isActive_save, isActive_eq hmemberships]
    constructor
    · intro hfirst hslip
      obtain rfl : b = false := some.inj (hb.symm.trans hslip.2.2.2)
      -- the membership went inactive, and the one thing the call did is to save it
      exact not_offboardsFirst (hrowActive.trans hslip.2.1) (by simp [hsaved]) (by simp [hsent]) hfirst
    · intro hno
      refine .of_saved hsaved (fun hactive hfalse => ?_) (by simp [hsent])
      obtain rfl : b = false := hfalse
      exact absurd ⟨trivial, hrowActive.symm.trans hactive, by simpa using hfails, hb⟩ hno

theorem after_loaded {α : Type} {f : User × Membership → Scim α}
    (h : ∀ user row, dir.membership u o = some row → dir.users.lookup u = some user →
      After (f (user, row)) dir fun _ => OffboardsFirst dir) :
    After (loadMember call u o >>= f) dir fun _ => OffboardsFirst dir := by
  rw [after_bind, after_loadMember]
  split
  · exact .of_eq rfl
  split
  · exact .of_eq rfl
  next row hrow =>
    split
    · exact .of_eq rfl
    split
    · exact .of_eq rfl
    next user huser => exact h user row hrow huser

theorem offboardsFirst_deleteUser (hsent : dir.sent = []) :
    After (deleteUser host call o u) dir fun _ => OffboardsFirst dir := by
  refine after_loaded fun user row hrow _ => (after_saveLeaving rfl hrow hsent).mpr fun hslip => ?_
  exact Bool.false_ne_true (hslip.1.symm.trans hslip.2.1)

theorem after_answer {α β : Type} {x : Scim β} {a : α} {Q : Directory → Prop} :
    After (x >>= fun _ => pure a) dir (fun _ => Q) ↔ After x dir fun _ => Q := by
  rw [after_bind]
  unfold After
  cases (outcome x dir).1 <;> exact Iff.rfl

theorem offboardsFirst_patchUser {operations : List ScimOperation} (hsent : dir.sent = []) :
    After (patchUser host call o u operations) dir fun _ => OffboardsFirst dir := by
  refine after_loaded fun user row hrow _ => ?_
  simp only [after_bind, after_await, after_get, next_ok]
  split
  · exact .of_eq rfl
  generalize operations.foldl (applyOperation host (dir.mayWriteProfile u))
    { user := user, isActive := row.isActive, profileTouched := false } = patched
  have hnoslip : ¬((row.isActive && !patched.isActive) = false ∧ row.isActive = true ∧
      call.fails .save = false ∧ host.stored (.bool patched.isActive) = some false) := by
    intro hslip
    rw [host.stored_bool, some.injEq] at hslip
    simp [hslip] at hslip
  split
  · rw [after_bind, after_saveUser]
    split
    · exact .of_eq rfl
    · refine after_answer.mpr ((after_saveLeaving ?_ hrow ?_).mpr hnoslip)
      · rfl
      · exact hsent
  · exact after_answer.mpr ((after_saveLeaving rfl hrow hsent).mpr hnoslip)

variable {input : ScimUserInput}

theorem after_replaceActive {before : Directory}
    (hmemberships : dir.memberships = before.memberships) (hrow : before.membership u o = some row)
    (hsent : dir.sent = []) :
    After (replaceActive host call o u input user row) dir (fun _ => OffboardsFirst before) ↔
      ¬((∃ active, input.active = some active ∧ active.truthy = true ∧
          host.stored active = some false) ∧ row.isActive = true ∧ call.fails .save = false) := by
  unfold replaceActive
  cases input.active with
  | none => exact iff_of_true (.of_eq hmemberships) (by simp)
  | some active =>
    refine (after_answer.trans (after_saveLeaving hmemberships hrow hsent)).trans (not_congr ?_)
    cases row.isActive <;> cases htruthy : active.truthy <;> simp [htruthy, and_comm]

theorem offboardsFirst_replaceUser (hsent : dir.sent = []) :
    (After (replaceUser host call o u input) dir fun _ => OffboardsFirst dir) ↔
      ¬DeactivatesUnseen host dir call o u input := by
  -- a call that throws before its save changes nothing, and is none of the ones that go wrong
  have hthrows : ∀ at' ∈ [Await.membership, .user, .elsewhere, .save], call.fails at' = true →
      ¬DeactivatesUnseen host dir call o u input := by
    intro at' hat hfails h
    rw [h.ends at' hat] at hfails
    exact absurd hfails (by decide)
  unfold replaceUser
  rw [after_bind, after_loadMember]
  split
  next hfails => exact iff_of_true (.of_eq rfl) (hthrows _ (by simp) hfails)
  next hmembership =>
  split
  next hnone =>
    refine iff_of_true (.of_eq rfl) fun h => ?_
    have hmember := h.member
    rw [Directory.isActive, hnone] at hmember
    exact absurd hmember (by decide)
  next row hrow =>
  split
  next hfails => exact iff_of_true (.of_eq rfl) (hthrows _ (by simp) hfails)
  next huserread =>
  split
  next hnone =>
    refine iff_of_true (.of_eq rfl) fun h => ?_
    have hknown := h.known
    rw [hnone] at hknown
    exact absurd hknown (by decide)
  next user huser =>
  simp only [next_ok, after_bind, after_await, after_get]
  split
  next hfails => exact iff_of_true (.of_eq rfl) (hthrows _ (by simp) hfails)
  next helsewhere =>
  have hends (hprofile : dir.mayWriteProfile u = true → call.fails .saveProfile = false) :
      ((∃ active, input.active = some active ∧ active.truthy = true ∧
        host.stored active = some false) ∧ row.isActive = true ∧ call.fails .save = false) ↔
      DeactivatesUnseen host dir call o u input := by
    constructor
    · rintro ⟨hunseen, hactive, hsave⟩
      exact { unseen := hunseen, member := (isActive_of_membership hrow).trans hactive
              known := by rw [huser]; rfl
              ends := by simp [hsave, hmembership, huserread, helsewhere], profile := hprofile }
    · intro h
      exact ⟨h.unseen, (isActive_of_membership hrow).symm.trans h.member, h.ends _ (by simp)⟩
  split
  next hmay =>
    rw [after_bind, after_saveUser]
    split
    next hfails =>
      refine iff_of_true (.of_eq rfl) fun h => ?_
      rw [h.profile hmay] at hfails
      exact absurd hfails (by decide)
    next hprofile =>
      refine (after_replaceActive ?_ hrow ?_).trans (not_congr (hends fun _ => by simpa using hprofile))
      · rfl
      · exact hsent
  next hmay =>
    exact (after_replaceActive rfl hrow hsent).trans (not_congr (hends fun h => absurd h hmay))

theorem membership_newId (o : Uuid) : dir.membership dir.newId o = none := by
  refine List.lookup_eq_none_iff.mpr fun row hrow => ?_
  have hle : row.1.userId < dir.newId := Nat.lt_succ_of_le (List.le_max_of_le' 0
    (List.mem_append_right _ (List.mem_map_of_mem hrow)) (Nat.le_refl _))
  have hne : (⟨dir.newId, o⟩ : Seat) ≠ row.1 := fun heq => by
    rw [← heq] at hle
    exact absurd hle (Nat.lt_irrefl _)
  exact bne_iff_ne.mpr hne

theorem after_provision {o : Uuid} {id : Uuid} {before : Directory}
    (hmemberships : dir.memberships = before.memberships) (hsent : dir.sent = []) :
    After (provision host call o input id user) dir (fun _ => OffboardsFirst before) ↔
      ¬(input.active = some (.bool false) ∧ before.isActive id o = true ∧
        call.fails .existing = false ∧ call.fails .deactivate = false) := by
  unfold provision
  simp only [after_bind, after_await, after_get, next_ok, next_error]
  split
  next hfails => exact iff_of_true (.of_eq hmemberships) (by simp [hfails])
  next hexisting =>
  have hmembership : dir.membership id o = before.membership id o := by
    unfold Directory.membership
    rw [hmemberships]
  split
  next existing hrow =>
    have hactive := isActive_of_membership (hmembership.symm.trans hrow)
    cases hwas : existing.isActive with
    | true =>
      simp only [Bool.not_true, Bool.false_eq_true, if_false]
      split
      next hfalse =>
        rw [after_answer, after_saveMembership, host.stored_bool]
        split
        next hfails => exact iff_of_true (.of_eq hmemberships) (by simp [hfails])
        next hdeactivate =>
        have hnot : ¬OffboardsFirst before (dir.save id o { existing with isActive := false }) :=
          not_offboardsFirst (hactive.trans hwas) (by simp [isActive_save]) (by simp [hsent])
        refine iff_of_false hnot fun h => h ⟨hfalse, hactive.trans hwas, ?_, ?_⟩
        · simpa using hexisting
        · simpa using hdeactivate
      next hfalse => exact iff_of_true (.of_eq hmemberships) fun h => hfalse h.1
    | false =>
      -- reactivated first, whatever the body asks for
      have hinactive : before.isActive id o = false := hactive.trans hwas
      refine iff_of_true ?_ (by simp [hinactive])
      have hsaved (b : Bool) {dir' : Directory} (h : ∀ u' o', dir'.isActive u' o' =
          if u' = id ∧ o' = o then b else before.isActive u' o')
          (hfailed : ∀ u o, .offboardFailed u o ∉ dir'.sent) : OffboardsFirst before dir' :=
        .of_saved h (fun hb => absurd hb (by simp [hinactive])) hfailed
      have hback (u' o' : Uuid) : (dir.save id o { existing with isActive := true }).isActive u' o' =
          if u' = id ∧ o' = o then true else before.isActive u' o' := by
        rw [isActive_save, isActive_eq hmemberships]
      simp only [Bool.not_false, if_true, after_bind, after_saveMembership, host.stored_bool]
      split
      · exact .of_eq hmemberships
      rw [next_ok]
      split
      · rw [after_answer, after_saveMembership, host.stored_bool]
        split
        · exact hsaved true hback (by simp [hsent])
        · refine hsaved false (fun u' o' => ?_) (by simp [hsent])
          rw [isActive_save, hback]
          split <;> simp_all
      · rw [after_pure]
        exact hsaved true hback (by simp [hsent])
  next hnone =>
    have hactive : before.isActive id o = false := by
      unfold Directory.isActive
      rw [← hmembership, hnone]
      rfl
    rw [hactive]
    refine iff_of_true (after_answer.mpr ?_) (by simp)
    rw [after_saveMembership]
    split
    · exact .of_eq hmemberships
    split
    · exact .of_eq hmemberships
    next b _ =>
      refine .of_saved (u := id) (o := o) (b := b) (fun u' o' => ?_) (fun h => ?_) (by simp [hsent])
      · rw [isActive_save, isActive_eq hmemberships]
      · rw [hactive] at h
        exact absurd h (by decide)

theorem offboardsFirst_createUser {o : Uuid} (hsent : dir.sent = []) :
    (After (createUser host call o input) dir fun _ => OffboardsFirst dir) ↔
      ¬DeactivatesByCreate host dir call o input := by
  have hthrows : ∀ at' ∈ [Await.config, .user, .membership, .existing, .deactivate],
      call.fails at' = true → ¬DeactivatesByCreate host dir call o input := by
    intro at' hat hfails h
    rw [h.ends at' hat] at hfails
    exact absurd hfails (by decide)
  unfold createUser extractEmail
  rw [after_bind]
  split
  next hempty => exact iff_of_true (.of_eq rfl) fun h => h.address hempty
  next haddress =>
  unfold provisionedUser
  simp only [after_pure, after_bind, after_await, after_get, next_ok, next_error]
  split
  next hfails => exact iff_of_true (.of_eq rfl) (hthrows _ (by simp) hfails)
  next hconfig =>
  split
  next hfails => exact iff_of_true (.of_eq rfl) (hthrows _ (by simp) hfails)
  next huser =>
  split
  next found hfound =>
    rw [after_bind, after_await]
    split
    next hfails => exact iff_of_true (.of_eq rfl) (hthrows _ (by simp) hfails)
    next hmembership =>
    rw [next_ok]
    split
    next hnone =>
      refine iff_of_true (.of_eq rfl) fun h => ?_
      obtain ⟨found', hfound', hactive⟩ := h.member
      obtain rfl : found = found' := some.inj (hfound.symm.trans hfound')
      rw [Directory.isActive, isNone_iff_eq_none.mp hnone] at hactive
      exact absurd hactive (by decide)
    next =>
      refine (after_provision rfl hsent).trans (not_congr ?_)
      constructor
      · rintro ⟨hinactive, hactive, hexisting, hdeactivate⟩
        exact { inactive := hinactive, address := haddress, member := ⟨found, hfound, hactive⟩
                ends := by simp [hexisting, hdeactivate, hconfig, huser, hmembership] }
      · intro h
        obtain ⟨found', hfound', hactive⟩ := h.member
        obtain rfl : found = found' := some.inj (hfound.symm.trans hfound')
        exact ⟨h.inactive, hactive, h.ends _ (by simp), h.ends _ (by simp)⟩
  next hnone =>
    have hnot : ¬DeactivatesByCreate host dir call o input := by
      intro h
      obtain ⟨found, hfound, -⟩ := h.member
      rw [hnone] at hfound
      cases hfound
    refine iff_of_true ?_ hnot
    unfold createIdentity
    rw [after_bind, after_await]
    split
    · exact .of_eq rfl
    rw [next_ok]
    split
    · exact .of_eq rfl
    rw [after_bind, after_await]
    split
    · exact .of_eq rfl
    rw [next_ok]
    split
    · exact .of_eq rfl
    -- a new id has no membership, so there is none to make inactive
    refine (after_provision ?_ ?_).mpr fun h => ?_
    · rfl
    · exact hsent
    · have hactive := h.2.1
      rw [Directory.isActive, membership_newId] at hactive
      exact absurd hactive (by decide)

theorem offboardsFirst_iff (request : Call × ScimRequest) :
    OffboardsFirst dir (serve host dir request) ↔ ¬Forgets host dir request := by
  have hstart (dir' : Directory) :
      OffboardsFirst dir dir' ↔ OffboardsFirst { dir with sent := [] } dir' :=
    ⟨fun h => ⟨h.first, h.stays⟩, fun h => ⟨h.first, h.stays⟩⟩
  rw [hstart]
  obtain ⟨call, request⟩ := request
  cases request with
  | createUser o input =>
    refine (after_answer.trans (offboardsFirst_createUser rfl)).trans (not_congr ?_)
    exact ⟨fun h => ⟨h.inactive, h.address, h.member, h.ends⟩,
      fun h => ⟨h.inactive, h.address, h.member, h.ends⟩⟩
  | replaceUser o u input =>
    refine (after_answer.trans (offboardsFirst_replaceUser rfl)).trans (not_congr ?_)
    exact ⟨fun h => ⟨h.unseen, h.member, h.known, h.ends, h.profile⟩,
      fun h => ⟨h.unseen, h.member, h.known, h.ends, h.profile⟩⟩
  | patchUser o u operations =>
    exact iff_of_true (after_answer.mpr (offboardsFirst_patchUser rfl)) not_false
  | deleteUser o u => exact iff_of_true (offboardsFirst_deleteUser rfl) not_false

/-- Deactivations take the connections first, and a failed offboarding leaves the member active,
exactly when no call forgets. -/
theorem deactivation_offboards_first_iff (requests : List (Call × ScimRequest)) :
    Steps.Along (serve host) (fun dir request => OffboardsFirst dir (serve host dir request)) dir
        requests ↔
      Steps.Along (serve host) (fun dir request => ¬Forgets host dir request) dir requests :=
  Steps.along_iff_of_invariant (fun _ => True) (fun _ _ _ _ => trivial)
    (fun _ request _ => offboardsFirst_iff request) trivial

/-- A column that holds true for `true` alone. -/
def strictHost : Host where
  stored v := some (v = .bool true)
  stored_bool b := by cases b <;> rfl
  text
    | .str s => s
    | _ => ""
  lowerCase := Js.toLowerCase

def anaMember : Directory where
  users := [(1, { email := "ana@corp.com", firstName := "Ana", lastName := "Ruiz"
                  hasPassword := false, isVerified := true, isActive := true })]
  memberships := [(⟨1, 7⟩, { role := .member, isActive := true, inviteAccepted := true
                             inviteToken := none })]
  sent := []

/-- The identity provider posts Ana again, inactive: she leaves with her connections working. -/
theorem provisioned_inactive_keeps_connections :
    ¬Steps.Along (serve strictHost)
      (fun dir request => OffboardsFirst dir (serve strictHost dir request)) anaMember
      [({ fails := fun _ => false, defaultRole := none, coversEmail := true },
        .createUser 7 { userName := some "ana@corp.com", active := some (.bool false) })] := by
  intro h
  refine (offboardsFirst_iff _).mp h.1 ?_
  exact { inactive := rfl, address := by decide
          member := ⟨_, rfl, rfl⟩, ends := fun _ _ => rfl }

end Almyty.Access
