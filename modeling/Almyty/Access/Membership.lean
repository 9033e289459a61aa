import Mathlib

/-!
# Memberships: `user-organization.entity.ts`, `membership.ts`

A row of `user_organizations` is more than a current member: it is made when somebody is
invited, and a revoked invite leaves it inactive. `isEffectiveMembership` is the one reading of
it that grants access.

Ids are uuids; a number stands for each, so that no id reads as an absent one.
-/

namespace Almyty.Access

abbrev Uuid := Nat

inductive OrganizationRole
  | owner
  | admin
  | member
  | viewer
  deriving DecidableEq

structure Membership where
  role : OrganizationRole
  isActive : Bool
  inviteAccepted : Bool
  inviteToken : Option String

def Membership.isEffective (row : Membership) : Bool :=
  row.isActive && (row.inviteAccepted || row.inviteToken.all (· = ""))

end Almyty.Access
