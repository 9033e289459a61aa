import Almyty.Access.Membership
import Almyty.Lib.Assoc

/-!
# SCIM groups: `patchGroup` of `scim.service.ts`

The members of a group are the active rows of its team. Of the membership operations `patchGroup`
heeds those with the path `members` that add or remove the users their value lists; a replacement, a
removal of everybody, a path with a filter and an operation without a path leave every row as it is.
`patch_means_iff` says when the members are what the operations ask for all the same.

Mirroring notes:
- A `value` is what is read of it: the ids in an array, or an object's `displayName`.
-/

namespace Almyty.Access

open Almyty.Lib List

structure Organization where
  membership : String → Option Membership
  /-- No user's id is empty. -/
  nobody : membership "" = none

def Organization.isEffective (org : Organization) (userId : String) : Bool :=
  (org.membership userId).any (·.isEffective)

inductive OpValue
  | absent
  | array (values : List String)
  | object (displayName : Option String) (members : List String)

structure GroupOperation where
  op : List Char
  path : Option String
  value : OpValue

structure Group where
  name : String
  rows : List (String × Bool)

def Group.isMember (group : Group) (userId : String) : Bool := group.rows.lookup userId = some true

def syncGroupMembers (org : Organization) (rows : List (String × Bool)) (members : List String) :
    List (String × Bool) :=
  members.foldl (fun rows userId =>
    if userId = "" then rows
    else if org.isEffective userId ∧ rows.lookup userId ≠ some true then
      -- the row that was found is activated, or one is created
      Assoc.put rows userId true
    else rows) rows

def removeGroupMembers (rows : List (String × Bool)) (userIds : List String) :
    List (String × Bool) :=
  userIds.foldl (fun rows userId =>
    if (rows.lookup userId).isSome then Assoc.put rows userId false else rows) rows

def patchOperation (org : Organization) (group : Group) (op : GroupOperation) : Group :=
  let operation := op.op.map Char.toLower
  if op.path = some "members" then
    let values := match op.value with
      | .array values => values
      | _ => []
    if operation = "add".toList then { group with rows := syncGroupMembers org group.rows values }
    else if operation = "remove".toList then
      { group with rows := removeGroupMembers group.rows values }
    else group
  else
    match op.value with
    | .object (some name) _ =>
      if operation = "replace".toList ∧ name ≠ "" then { group with name } else group
    | _ => group

def patchGroup (org : Organization) (group : Group) (operations : List GroupOperation) : Group :=
  operations.foldl (patchOperation org) group

/-! ## What the operations ask for -/

inductive Verb
  | add
  | remove
  | replace
  deriving DecidableEq

def Verb.text : Verb → List Char
  | .add => "add".toList
  | .remove => "remove".toList
  | .replace => "replace".toList

/-- Whom an operation is about: those its value lists, nobody in particular, the one its path
selects, or those its value holds. -/
inductive Form
  | members (ids : List String)
  | unlisted
  | filtered (id : String)
  | pathless (ids : List String)

/-- A membership operation in a standard form, its `op` in any letter case. -/
structure MemberOp where
  op : List Char
  verb : Verb
  spelled : op.map Char.toLower = verb.text
  form : Form

namespace MemberOp

def written (o : MemberOp) : GroupOperation :=
  match o.form with
  | .members ids => ⟨o.op, some "members", .array ids⟩
  | .unlisted => ⟨o.op, some "members", .absent⟩
  | .filtered id => ⟨o.op, some ("members[value eq \"" ++ id ++ "\"]"), .absent⟩
  | .pathless ids => ⟨o.op, none, .object none ids⟩

def ids (o : MemberOp) : List String :=
  match o.form with
  | .members ids | .pathless ids => ids
  | .filtered id => [id]
  | .unlisted => []

/-- Whether a user is a member from here on, if the operation says so. A removal that lists nobody
is of all; what a filter selects is replaced by itself. -/
def tells (o : MemberOp) (userId : String) : Option Bool :=
  match o.verb, o.form with
  | .remove, .unlisted => some false
  | .replace, .filtered _ => none
  | .replace, _ => some (decide (userId ∈ o.ids))
  | verb, _ => if userId ∈ o.ids then some (decide (verb = .add)) else none

def heeded (o : MemberOp) : Bool :=
  o.verb ≠ .replace && match o.form with
    | .members _ => true
    | _ => false

def asked (operations : List MemberOp) (userId : String) (before : Bool) : Bool :=
  operations.foldl (fun now o => (o.tells userId).getD now) before

end MemberOp

open MemberOp

/-- The operations that are not heeded change nobody's last word, and who is no member of the
organization is taken off. -/
structure MeansWell (org : Organization) (group : Group) (operations : List MemberOp) : Prop where
  effective : ∀ userId, org.isEffective userId = true →
    asked (operations.filter heeded) userId (group.isMember userId) =
      asked operations userId (group.isMember userId)
  stale : ∀ userId, org.isEffective userId = false → group.isMember userId = true →
    ∃ o ∈ operations, o.heeded = true ∧ o.tells userId = some false

/-! ## What a patch does -/

variable {org : Organization} {rows : List (String × Bool)} {userId : String}

theorem lookup_sync (members : List String) :
    (syncGroupMembers org rows members).lookup userId = some true ↔
      rows.lookup userId = some true ∨ userId ∈ members ∧ org.isEffective userId = true := by
  unfold syncGroupMembers
  induction members generalizing rows with
  | nil => simp
  | cons id members ih =>
    rw [foldl_cons, ih, mem_cons]
    by_cases heq : userId = id
    · subst heq
      by_cases heff : org.isEffective userId = true
      · have hne : userId ≠ "" := by
          rintro rfl
          rw [Organization.isEffective, org.nobody] at heff
          cases heff
        rw [if_neg hne]
        split
        · simp [heff, Assoc.lookup_put]
        · simp_all
      · simp [heff]
    · simp only [heq, false_or]
      repeat' split
      all_goals simp [Assoc.lookup_put, heq]

theorem lookup_remove (userIds : List String) :
    (removeGroupMembers rows userIds).lookup userId = some true ↔
      rows.lookup userId = some true ∧ userId ∉ userIds := by
  unfold removeGroupMembers
  induction userIds generalizing rows with
  | nil => simp
  | cons id userIds ih =>
    rw [foldl_cons, ih, mem_cons]
    by_cases heq : userId = id
    · subst heq
      cases hrow : rows.lookup userId <;> simp [hrow, Assoc.lookup_put]
    · split <;> simp [Assoc.lookup_put, heq]

/-- What the service makes of an operation. -/
def heard (org : Organization) (o : MemberOp) (userId : String) : Option Bool :=
  if o.heeded && (o.tells userId ≠ some true || org.isEffective userId) then o.tells userId
  else none

theorem isMember_patchOperation (group : Group) (o : MemberOp) :
    (patchOperation org group o.written).isMember userId =
      (heard org o userId).getD (group.isMember userId) := by
  obtain ⟨op, verb, hspelled, form⟩ := o
  cases form with
  | members ids =>
    cases verb with
    | add =>
      have hop : op.map Char.toLower = "add".toList := hspelled
      by_cases hmem : userId ∈ ids <;> by_cases heff : org.isEffective userId = true <;>
        simp [patchOperation, written, hop, Group.isMember, lookup_sync, heard, heeded, tells,
          MemberOp.ids, hmem, heff]
    | remove =>
      have hop : op.map Char.toLower = "remove".toList := hspelled
      by_cases hmem : userId ∈ ids <;>
        simp [patchOperation, written, hop, Group.isMember, lookup_remove, heard, heeded, tells,
          MemberOp.ids, hmem]
    | replace =>
      have hop : op.map Char.toLower = "replace".toList := hspelled
      simp [patchOperation, written, hop, heard, heeded]
  | unlisted =>
    have hsame : patchOperation org group (written ⟨op, verb, hspelled, .unlisted⟩) = group := by
      simp [patchOperation, written, syncGroupMembers, removeGroupMembers]
    rw [hsame]
    simp [heard, heeded]
  | filtered id =>
    have hpath : "members[value eq \"" ++ id ++ "\"]" ≠ "members" := by
      intro h
      have hlength := congrArg String.length h
      rw [String.length_append, String.length_append] at hlength
      change 18 + id.length + 2 = 7 at hlength
      omega
    simp [patchOperation, written, heard, heeded, hpath]
  | pathless ids => simp [patchOperation, written, heard, heeded]

theorem isMember_patchGroup (group : Group) (operations : List MemberOp) :
    (patchGroup org group (operations.map written)).isMember userId =
      operations.foldl (fun now o => (heard org o userId).getD now) (group.isMember userId) := by
  rw [patchGroup, foldl_map]
  induction operations generalizing group with
  | nil => rfl
  | cons o operations ih => rw [foldl_cons, foldl_cons, ih, isMember_patchOperation]

theorem heard_effective (heff : org.isEffective userId = true) (operations : List MemberOp)
    (before : Bool) :
    operations.foldl (fun now o => (heard org o userId).getD now) before =
      asked (operations.filter heeded) userId before := by
  rw [asked, foldl_filter]
  congr
  funext now o
  simp only [heard, heff, Bool.or_true, Bool.and_true]
  split <;> rfl

theorem heard_stale (heff : org.isEffective userId = false) (operations : List MemberOp)
    (before : Bool) :
    operations.foldl (fun now o => (heard org o userId).getD now) before = true ↔
      before = true ∧ ¬∃ o ∈ operations, o.heeded = true ∧ o.tells userId = some false := by
  induction operations generalizing before with
  | nil => simp
  | cons o operations ih =>
    rw [foldl_cons, ih]
    have hheard : heard org o userId =
        if o.heeded ∧ o.tells userId = some false then some false else none := by
      unfold heard
      cases o.heeded <;> rcases o.tells userId with _ | _ | _ <;> simp [heff]
    rw [hheard]
    split <;> simp_all

/-- **Group patches**: the members are those that the operations ask for, in order, as far as they
are members of the organization, exactly when the operations mean well. -/
theorem patch_means_iff (org : Organization) (group : Group) (operations : List MemberOp) :
    (∀ userId, (patchGroup org group (operations.map written)).isMember userId =
      (asked operations userId (group.isMember userId) && org.isEffective userId)) ↔
      MeansWell org group operations := by
  have hmember (userId : String) := @isMember_patchGroup org userId group operations
  constructor
  · intro h
    refine ⟨fun userId heff => ?_, fun userId heff hbefore => ?_⟩
    · rw [← heard_effective heff, ← hmember, h, heff, Bool.and_true]
    · have hnot := h userId
      rw [hmember, heff, Bool.and_false, ← Bool.not_eq_true, heard_stale heff] at hnot
      exact Classical.not_not.mp fun hnone => hnot ⟨hbefore, hnone⟩
  · intro h userId
    rw [hmember]
    by_cases heff : org.isEffective userId = true
    · rw [heard_effective heff, h.effective userId heff, heff, Bool.and_true]
    · rw [Bool.not_eq_true] at heff
      rw [heff, Bool.and_false, ← Bool.not_eq_true, heard_stale heff]
      exact fun hkept => hkept.2 (h.stale userId heff hkept.1)

/-- The one whom the others are to replace stays. -/
theorem replaced_member_stays :
    let org : Organization :=
      ⟨fun id => if id = "" then none else some ⟨.member, true, true, none⟩, rfl⟩
    let replace : MemberOp := ⟨"Replace".toList, .replace, by decide, .members ["bo"]⟩
    let finance : Group := ⟨"finance", [("ana", true)]⟩
    asked [replace] "ana" (finance.isMember "ana") = false ∧
      (patchGroup org finance [replace.written]).isMember "ana" = true := by
  decide +kernel

end Almyty.Access
