import Almyty.Access.Scim

/-!
# Whose names SCIM writes: `scim.service.ts`

`users` is one table for every tenant, so an identity provider is to leave alone the row of somebody
who is an active member of another organization, or no member of its own. `createUser` refuses an
address that somebody outside has, `replaceUser`, `patchUser` and `deleteUser` answer 404 for them,
and the two that write names ask `mayWriteProfile` first. `mayWriteProfile` counts the person's
active memberships and does not look where they are: a member the organization has deactivated, and
who is active in one other organization, is counted once.

`foreign_profile_kept_iff` says of any call in any state when it leaves the row alone.
-/

namespace Almyty.Access

open Almyty.Lib Throws Option

def ScimRequest.organizationId : ScimRequest → Uuid
  | .createUser organizationId _ | .replaceUser organizationId _ _
  | .patchUser organizationId _ _ | .deleteUser organizationId _ => organizationId

def ScimRequest.addressed (host : Host) (dir : Directory) : ScimRequest → Option Uuid
  | .createUser _ input => (dir.userByEmail (emailOf host input)).map (·.1)
  | .replaceUser _ userId _ | .patchUser _ userId _ | .deleteUser _ userId => some userId

/-- Another tenant's person: an active member of another organization, or no member of this. -/
def Directory.Foreign (dir : Directory) (userId organizationId : Uuid) : Prop :=
  (∃ elsewhere, elsewhere ≠ organizationId ∧ dir.isActive userId elsewhere = true) ∨
    dir.membership userId organizationId = none

/-- A call leaves the row of another tenant's person as it is. -/
def KeepsForeignProfile (host : Host) (dir : Directory) (request : Call × ScimRequest) : Prop :=
  ∀ userId, request.2.addressed host dir = some userId →
    dir.Foreign userId request.2.organizationId →
    (serve host dir request).users.lookup userId = dir.users.lookup userId

/-! ## The names a patch gives -/

def ScimOperation.setsFields (op : ScimOperation) : Bool :=
  (op.op.map Js.toLowerCase = some "replace" || op.op.map Js.toLowerCase = some "add") &&
    op.path ≠ some "active"

def namesGiven (key : String) (operations : List ScimOperation) : List Json :=
  (operations.filter (·.setsFields)).filterMap fun op => fieldOf (fieldOf op.value "name") key

/-- The user under the last names a patch gives. -/
def User.renamedBy (host : Host) (operations : List ScimOperation) (user : User) : User :=
  { user with
    firstName := ((namesGiven "givenName" operations).getLast?.map host.text).getD user.firstName
    lastName := ((namesGiven "familyName" operations).getLast?.map host.text).getD user.lastName }

/-! ## What goes wrong -/

structure Renames (dir : Directory) (call : Call) (organizationId userId : Uuid)
    (renamed : User → User) : Prop where
  member : (dir.membership userId organizationId).isSome = true
  elsewhere : ∃ other, other ≠ organizationId ∧ dir.isActive userId other = true
  counted : dir.mayWriteProfile userId = true
  differs : ∃ user, dir.users.lookup userId = some user ∧ renamed user ≠ user
  ends : ∀ at' ∈ [Await.membership, .user, .elsewhere, .saveProfile], call.fails at' = false

/-- The calls that write another tenant's person. -/
def RenamesForeign (host : Host) (dir : Directory) : Call × ScimRequest → Prop
  | (call, .replaceUser organizationId userId input) =>
    Renames dir call organizationId userId (·.renamed input.name)
  | (call, .patchUser organizationId userId operations) =>
    Renames dir call organizationId userId (·.renamedBy host operations)
  | (_, .createUser ..) | (_, .deleteUser ..) => False

variable {host : Host} {call : Call} {dir : Directory}

/-! ## What leaves `users` alone -/

variable {user : User} {P : List (Uuid × User) → Prop}

theorem after_saveLeaving_users {leaves : Bool} {u o : Uuid} {row : Membership} {v : Json} :
    After (saveLeaving host call leaves u o user row v) dir (fun _ d => P d.users) ↔
      P dir.users := by
  unfold saveLeaving
  cases leaves with
  | true =>
    simp only [if_true, after_bind, after_offboardConnections, next_ok, next_error,
      after_saveMembership, after_notifyDeprovision]
    repeat' split
    all_goals exact Iff.rfl
  | false =>
    simp only [Bool.false_eq_true, if_false, after_bind, after_pure, next_ok, next_error,
      after_saveMembership]
    repeat' split
    all_goals exact Iff.rfl

variable {input : ScimUserInput}

theorem after_replaceActive_users {u o : Uuid} {row : Membership} :
    After (replaceActive host call o u input user row) dir (fun _ d => P d.users) ↔
      P dir.users := by
  unfold replaceActive
  cases input.active with
  | none => exact Iff.rfl
  | some active => exact after_answer.trans after_saveLeaving_users

theorem after_provision_users {o : Uuid} {id : Uuid} :
    After (provision host call o input id user) dir (fun _ d => P d.users) ↔ P dir.users := by
  unfold provision
  simp only [after_bind, after_await, after_get, next_ok, next_error]
  split
  · exact Iff.rfl
  split
  next existing hrow =>
    have hrest (dir : Directory) : After (if input.active = some (.bool false) then do
          saveMembership host call .deactivate id o existing (.bool false)
          pure (toScimUser id user (.bool false))
        else pure (toScimUser id user (.bool true))) dir (fun _ d => P d.users) ↔ P dir.users := by
      split
      · rw [after_answer, after_saveMembership]
        repeat' split
        all_goals exact Iff.rfl
      · exact Iff.rfl
    split
    · rw [after_bind, after_saveMembership]
      split
      · exact Iff.rfl
      split
      · exact Iff.rfl
      · exact hrest _
    · exact hrest dir
  next =>
    rw [after_answer, after_saveMembership]
    repeat' split
    all_goals exact Iff.rfl

/-- `createUser` changes no row there is. -/
theorem createUser_users (dir : Directory) {o : Uuid} {u : Uuid}
    (huser : dir.users.lookup u = some user) :
    After (createUser host call o input) dir fun _ d => d.users.lookup u = some user := by
  unfold createUser extractEmail provisionedUser createIdentity
  rw [after_bind]
  split
  · exact huser
  simp only [after_pure, after_bind, after_await, after_get, next_ok, next_error]
  split
  · exact huser
  split
  · exact huser
  split
  next found _ =>
    rw [after_bind, after_await]
    split
    · exact huser
    rw [next_ok]
    split
    · exact huser
    · exact (after_provision_users (P := fun users => users.lookup u = some user)).mpr huser
  next =>
    rw [after_bind, after_await]
    split
    · exact huser
    rw [next_ok]
    split
    · exact huser
    rw [after_bind, after_await]
    split
    · exact huser
    rw [next_ok]
    split
    · exact huser
    refine (after_provision_users (P := fun users => users.lookup u = some user)).mpr ?_
    show (dir.users ++ _).lookup u = some user
    rw [List.lookup_append, huser]
    rfl

/-! ## What a patch makes of the names -/

variable {op : ScimOperation} {operations : List ScimOperation}

theorem namesGiven_cons {key : String} :
    namesGiven key (op :: operations) = namesGiven key [op] ++ namesGiven key operations := by
  unfold namesGiven
  rw [← List.singleton_append, List.filter_append, List.filterMap_append]

theorem renamedBy_cons :
    user.renamedBy host (op :: operations) =
      (user.renamedBy host [op]).renamedBy host operations := by
  -- the last of all the names is the last of the rest, and of the first where the rest has none
  have hlast (key : String) (name : String) :
      ((namesGiven key (op :: operations)).getLast?.map host.text).getD name =
        ((namesGiven key operations).getLast?.map host.text).getD
          (((namesGiven key [op]).getLast?.map host.text).getD name) := by
    rw [namesGiven_cons, List.getLast?_append]
    cases (namesGiven key operations).getLast? <;> rfl
  unfold User.renamedBy
  rw [hlast, hlast]

variable {p : Patched}

theorem applyOperation_user :
    (applyOperation host true p op).user = p.user.renamedBy host [op] := by
  have hnone (h : op.setsFields = false) : p.user.renamedBy host [op] = p.user := by
    unfold User.renamedBy namesGiven
    rw [List.filter_cons_of_neg (by simp [h])]
    rfl
  unfold applyOperation
  simp only [Bool.not_true, Bool.false_eq_true, if_false]
  split
  next hop =>
    exact (hnone (by simp [ScimOperation.setsFields, hop])).symm
  next hop =>
  split
  next hpath =>
    exact (hnone (by simp [ScimOperation.setsFields, hpath])).symm
  next hpath =>
  have hsets : op.setsFields = true := by
    rw [not_and_or, not_not, not_not] at hop
    rw [ScimOperation.setsFields, Bool.and_eq_true, Bool.or_eq_true, decide_eq_true_iff,
      decide_eq_true_iff, decide_eq_true_iff]
    exact ⟨hop, hpath⟩
  unfold User.renamedBy namesGiven
  rw [List.filter_cons_of_pos hsets, List.filter_nil]
  simp only [List.filterMap_cons, List.filterMap_nil]
  cases fieldOf op.value "active" <;> cases fieldOf (fieldOf op.value "name") "givenName" <;>
    cases fieldOf (fieldOf op.value "name") "familyName" <;> rfl

theorem foldl_applyOperation_user :
    (operations.foldl (applyOperation host true) p).user = p.user.renamedBy host operations := by
  induction operations generalizing p with
  | nil => rfl
  | cons op operations ih => rw [List.foldl_cons, ih, applyOperation_user, ← renamedBy_cons]

theorem applyOperation_untouched {may : Bool}
    (h : (applyOperation host may p op).profileTouched = false) :
    (applyOperation host may p op).user = p.user ∧ p.profileTouched = false := by
  unfold applyOperation at h ⊢
  revert h
  dsimp only
  cases fieldOf op.value "active" <;> cases fieldOf (fieldOf op.value "name") "givenName" <;>
    cases fieldOf (fieldOf op.value "name") "familyName" <;> dsimp only <;> repeat' split
  all_goals simp

theorem foldl_applyOperation_untouched {may : Bool}
    (h : (operations.foldl (applyOperation host may) p).profileTouched = false) :
    (operations.foldl (applyOperation host may) p).user = p.user ∧ p.profileTouched = false := by
  induction operations generalizing p with
  | nil => exact ⟨rfl, h⟩
  | cons op operations ih =>
    rw [List.foldl_cons] at h ⊢
    obtain ⟨huser, htouched⟩ := ih h
    obtain ⟨huser', htouched'⟩ := applyOperation_untouched htouched
    exact ⟨huser.trans huser', htouched'⟩

theorem foldl_applyOperation_barred :
    (operations.foldl (applyOperation host false) p).profileTouched = p.profileTouched := by
  induction operations generalizing p with
  | nil => rfl
  | cons op operations ih =>
    rw [List.foldl_cons, ih]
    unfold applyOperation
    dsimp only
    cases fieldOf op.value "active" <;> dsimp only <;> repeat' split
    all_goals first | rfl | contradiction

/-! ## The calls that write names -/

/-- Once the member is loaded, the row is kept unless the call is let through and writes other
names. -/
theorem keeps_iff_of_loaded {u o : Uuid} {α : Type} {f : User × Membership → Scim α}
    {renamed : User → User}
    (hloaded : ∀ user row, dir.users.lookup u = some user →
      ((After (f (user, row)) dir fun _ d => d.users.lookup u = some user) ↔
        ¬(dir.mayWriteProfile u = true ∧ call.fails .elsewhere = false ∧
          call.fails .saveProfile = false ∧ renamed user ≠ user))) :
    (dir.Foreign u o →
        After (loadMember call u o >>= f) dir fun _ d =>
          d.users.lookup u = dir.users.lookup u) ↔
      ¬Renames dir call o u renamed := by
  rw [after_bind, after_loadMember]
  split
  next hfails =>
    refine iff_of_true (fun _ => rfl) fun h => ?_
    rw [h.ends _ (by simp)] at hfails
    cases hfails
  next hmembership =>
  split
  next hnone =>
    refine iff_of_true (fun _ => rfl) fun h => ?_
    have hmember := h.member
    rw [hnone] at hmember
    cases hmember
  next row hrow =>
  split
  next hfails =>
    refine iff_of_true (fun _ => rfl) fun h => ?_
    rw [h.ends _ (by simp)] at hfails
    cases hfails
  next huserread =>
  split
  next hnone =>
    refine iff_of_true (fun _ => next_error.mpr rfl) fun h => ?_
    obtain ⟨user, huser, -⟩ := h.differs
    rw [hnone] at huser
    cases huser
  next user huser =>
  rw [next_ok, huser, hloaded user row huser]
  have hforeign : dir.Foreign u o ↔ ∃ other, other ≠ o ∧ dir.isActive u other = true :=
    or_iff_left (by simp [hrow])
  rw [hforeign, ← not_and]
  refine not_congr ⟨fun ⟨helsewhere, hmay, hread, hsave, hdiffers⟩ => ?_, fun h => ?_⟩
  · exact { member := by simp [hrow], elsewhere := helsewhere, counted := hmay
            differs := ⟨user, huser, hdiffers⟩
            ends := by simp [hread, hsave, hmembership, huserread] }
  · obtain ⟨user', huser', hdiffers⟩ := h.differs
    obtain rfl : user = user' := some.inj (huser.symm.trans huser')
    exact ⟨h.elsewhere, h.counted, h.ends _ (by simp), h.ends _ (by simp), hdiffers⟩

theorem keeps_replaceUser (dir : Directory) {u o : Uuid} :
    (dir.Foreign u o →
        After (replaceUser host call o u input) dir fun _ d =>
          d.users.lookup u = dir.users.lookup u) ↔
      ¬Renames dir call o u (·.renamed input.name) := by
  refine keeps_iff_of_loaded fun user row huser => ?_
  simp only [after_bind, after_await, after_get, next_ok, next_error]
  split
  next hfails => exact iff_of_true huser (by simp [hfails])
  next hread =>
  split
  next hmay =>
    rw [after_bind, after_saveUser]
    split
    next hfails => exact iff_of_true huser (by simp [hfails])
    next hsave =>
    refine (after_replaceActive_users (P := fun users => users.lookup u = some user)).trans ?_
    rw [Assoc.lookup_put, if_pos rfl, some.injEq]
    simp [hmay, hread, hsave]
  next hmay =>
    refine (after_replaceActive_users (P := fun users => users.lookup u = some user)).trans ?_
    exact iff_of_true huser fun h => hmay h.1

theorem keeps_patchUser (dir : Directory) {u o : Uuid} :
    (dir.Foreign u o →
        After (patchUser host call o u operations) dir fun _ d =>
          d.users.lookup u = dir.users.lookup u) ↔
      ¬Renames dir call o u (·.renamedBy host operations) := by
  refine keeps_iff_of_loaded fun user row huser => ?_
  simp only [after_bind, after_await, after_get, next_ok, next_error]
  split
  next hfails => exact iff_of_true huser (by simp [hfails])
  next hread =>
  generalize hpatched : operations.foldl (applyOperation host (dir.mayWriteProfile u))
    { user := user, isActive := row.isActive, profileTouched := false } = patched
  cases htouched : patched.profileTouched with
  | false =>
    simp only [Bool.false_eq_true, if_false]
    rw [after_answer, after_saveLeaving_users (P := fun users => users.lookup u = some user)]
    refine iff_of_true huser ?_
    rintro ⟨hmay, -, -, hdiffers⟩
    refine hdiffers ?_
    have huser' := (foldl_applyOperation_untouched (hpatched.symm ▸ htouched)).1
    rwa [hmay, foldl_applyOperation_user] at huser'
  | true =>
    have hmay : dir.mayWriteProfile u = true := by
      by_contra hmay
      rw [eq_false_of_ne_true hmay] at hpatched
      have hbarred := congrArg Patched.profileTouched hpatched
      rw [foldl_applyOperation_barred, htouched] at hbarred
      cases hbarred
    have hrenamed : patched.user = user.renamedBy host operations := by
      rw [← hpatched, hmay, foldl_applyOperation_user]
    rw [if_pos rfl, after_bind, after_saveUser]
    split
    next hfails => exact iff_of_true huser (by simp [hfails])
    next hsave =>
    rw [next_ok, after_answer,
      after_saveLeaving_users (P := fun users => users.lookup u = some user)]
    rw [Assoc.lookup_put, if_pos rfl, some.injEq, hrenamed]
    simp [hmay, hread, hsave]

/-- A call leaves another tenant's person alone unless it gives other names to a member who is
active in one other organization and not in its own. -/
theorem foreign_profile_kept_iff (request : Call × ScimRequest) :
    KeepsForeignProfile host dir request ↔ ¬RenamesForeign host dir request := by
  obtain ⟨call, request⟩ := request
  have hone (u o : Uuid) (P : Uuid → Prop) :
      (∀ userId, some u = some userId → dir.Foreign userId o → P userId) ↔
        (dir.Foreign u o → P u) :=
    ⟨fun h => h u rfl, fun h userId heq => some.inj heq ▸ h⟩
  cases request with
  | createUser o input =>
    refine iff_of_true (fun u haddressed _ => ?_) not_false
    obtain ⟨found, hfound, rfl⟩ := map_eq_some_iff.mp haddressed
    have hknown : (dir.users.lookup found.1).isSome :=
      (Assoc.lookup_isSome_iff ..).mpr (List.mem_map_of_mem (List.mem_of_find?_eq_some hfound))
    obtain ⟨user, huser⟩ := isSome_iff_exists.mp hknown
    rw [huser]
    exact after_answer.mpr (createUser_users { dir with sent := [] } huser)
  | replaceUser o u input =>
    refine (hone u o _).trans ?_
    refine (imp_congr_right fun _ => after_answer).trans
      ((keeps_replaceUser { dir with sent := [] }).trans (not_congr ?_))
    exact ⟨fun h => ⟨h.member, h.elsewhere, h.counted, h.differs, h.ends⟩,
      fun h => ⟨h.member, h.elsewhere, h.counted, h.differs, h.ends⟩⟩
  | patchUser o u operations =>
    refine (hone u o _).trans ?_
    refine (imp_congr_right fun _ => after_answer).trans
      ((keeps_patchUser { dir with sent := [] }).trans (not_congr ?_))
    exact ⟨fun h => ⟨h.member, h.elsewhere, h.counted, h.differs, h.ends⟩,
      fun h => ⟨h.member, h.elsewhere, h.counted, h.differs, h.ends⟩⟩
  | deleteUser o u =>
    refine iff_of_true (fun userId haddressed _ => ?_) not_false
    obtain rfl : u = userId := some.inj haddressed
    show After (deleteUser host call o u) { dir with sent := [] } fun _ d =>
      d.users.lookup u = dir.users.lookup u
    unfold deleteUser
    rw [after_bind, after_loadMember]
    repeat' split
    all_goals
      first
      | exact next_error.mpr rfl
      | exact (after_saveLeaving_users (P := fun users => users.lookup u = _)).mpr rfl

def anaElsewhere : Directory where
  users := [(1, { email := "ana@corp.com", firstName := "Ana", lastName := "Ruiz"
                  hasPassword := false, isVerified := true, isActive := true })]
  memberships := [
    (⟨1, 7⟩, { role := .member, isActive := false, inviteAccepted := true, inviteToken := none }),
    (⟨1, 8⟩, { role := .member, isActive := true, inviteAccepted := true, inviteToken := none })]
  sent := []

/-- The organization that suspended her renames her for the one she works in. -/
theorem suspended_member_renamed :
    ¬KeepsForeignProfile strictHost anaElsewhere
      ({ fails := fun _ => false, defaultRole := none, coversEmail := true },
        .replaceUser 7 1 { name := some { givenName := some "Eve", familyName := none } }) := by
  intro h
  have hkept := h 1 rfl (.inl ⟨8, by decide, rfl⟩)
  revert hkept
  decide

end Almyty.Access
