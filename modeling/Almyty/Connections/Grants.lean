import Almyty.Connections.GrantCheck
import Almyty.Lib.Steps

/-!
# Using, giving and revoking a grant: `grants.service.ts`

`assertCanUse` decides on the connection's grant list, which it takes from memory when it was read
less than thirty seconds ago. A list is put in memory by whoever read it, after the read has come
back; `grant` and `revoke` drop it after they have written. Between a read and its landing a whole
`revoke` can run: the list it lands is then the one from before, and it is served for thirty seconds
to callers that come after the revoke has returned. And `grant` saves a row it read before some
awaits: when the row was revoked meanwhile, the save writes it again.

`revoked_grant_stops` says that these two are the only ways: in every run in which no list with a
grant already revoked is put in memory, and no save writes a row already removed, every
`assertCanUse` that starts after a `revoke` has returned decides without that grant.

Mirroring notes:
- One process and one connection: its rows of `connection_grants` and its entry of the cache.
- What is read elsewhere (the connection, the caller's membership and teams, the target, the budget,
  the audit log) comes with the step, or fails it.
- `save` writes the row under its id, whether or not the id is still there, and is refused when
  another row names the same principal; an id made there is new.
-/

namespace Almyty.Connections

open Almyty.Lib List Option

/-- How long a connection's grant list is served from memory. -/
def GRANT_CACHE_TTL_MS : Int := 30000

structure CacheEntry where
  at' : Int
  grants : List Grant

structure UseContext where
  agentId : Option String := none
  workspaceId : Option String := none
  resourceType : Option String := none
  resourceId : Option String := none
  now : Option Int := none

structure GrantInput where
  principalType : GrantPrincipalType
  principalId : String
  permission : Option GrantPermission := none
  budgetId : Option String := none
  expiresAt : Option Int := none

inductive GrantError
  | connectionNotFound
  | connectionNotGranted (reason : String)
  | connectionPrivate
  | forbidden (reason : String)
  | expiresInPast
  | grantNotFound
  | outside

inductive UseStage
  | asking
  | finding (who : GrantPrincipal) (at' : Int)
  | found (who : GrantPrincipal) (at' : Int) (grants : List Grant)
  | given (who : GrantPrincipal) (grants : List Grant)
  | decided (grants : List Grant) (result : Except GrantError GrantDecision)
  | failed (error : GrantError)

inductive GrantStage
  | opening
  | reading (connection : ConnectionLike) (principal : GrantPrincipal)
  | checking (existing : List Grant)
  | saving (id : Option Nat) (row : Grant)
  | saved (row : Grant)
  | logging (row : Grant)
  | returned (row : Grant)
  | failed (error : GrantError)

inductive RevokeStage
  | opening
  | loading (row : Grant)
  | reading (row : Grant) (connection : ConnectionLike) (principal : GrantPrincipal)
  | removing (row : Grant)
  | removed (row : Grant)
  | logging (row : Grant)
  | returned (row : Grant)
  | failed (error : GrantError)

inductive Call
  | assertCanUse (connection : ConnectionLike) (context : GrantContext) (after : List Nat)
      (stage : UseStage)
  | grant (input : GrantInput) (actorId : String) (stage : GrantStage)
  | revoke (grantId : Nat) (stage : RevokeStage)

structure History where
  removed : List Nat
  dropped : List Nat
  returned : List Nat

structure World where
  table : List Grant
  cache : Option CacheEntry
  now : Int
  nextId : Nat
  calls : List Call
  history : History

/-- What a step of a call gets from elsewhere: whether it comes, and what is loaded. -/
structure Outside where
  ok : Bool := true
  connection : ConnectionLike := { organizationId := "" }
  principal : GrantPrincipal := { userId := "", roles := [], teamIds := [] }

def useContext (context : UseContext) (now : Int) : GrantContext :=
  let resource (kind : String) : Option String :=
    if context.resourceType = some kind ∧ context.resourceId.any (· ≠ "") then context.resourceId
    else none
  { agentId := (context.agentId.filter (· ≠ "")).or ((resource "agent").or context.agentId)
    workspaceId :=
      (context.workspaceId.filter (· ≠ "")).or ((resource "workspace").or context.workspaceId)
    now := context.now.getD now }

def useOutcome (connection : ConnectionLike) (context : GrantContext) (who : GrantPrincipal)
    (grants : List Grant) : Except GrantError GrantDecision :=
  let decision := canUse connection who grants context
  if decision.allowed then .ok decision
  else
    let hidden := connection.visibility = some .private' ∨
      (connection.visibility = some .team ∧ connectionHiddenFrom connection who grants context = true)
    if hidden then .error .connectionNotFound else .error (.connectionNotGranted decision.reason)

def grantRefusal (connection : ConnectionLike) (principal : GrantPrincipal) (existing : List Grant)
    (input : GrantInput) (now : Int) : Option GrantError :=
  let context : GrantContext := { now := now }
  if connectionHiddenFrom connection principal existing context then some .connectionNotFound
  else if connection.visibility = some .private' then some .connectionPrivate
  else
    let decision := canManage connection principal existing context
    if !decision.allowed then some (.forbidden decision.reason)
    else if input.expiresAt.any (· ≤ now) then some .expiresInPast
    else none

def assertOversight (connection : ConnectionLike) (principal : GrantPrincipal)
    (grants : List Grant) (now : Int) : Option GrantError :=
  let context : GrantContext := { now := now }
  if connectionHiddenFrom connection principal grants context then some .connectionNotFound
  else
    let decision := canManage connection principal grants context
    if decision.allowed then none
    else if !isOrgScoped connection && hasManagePermission principal then none
    else some (.forbidden decision.reason)

def grantRow (existing : List Grant) (input : GrantInput) (actorId : String) : Option Nat × Grant :=
  let id := (existing.find? fun grant => grant.principalType = input.principalType &&
    grant.principalId = input.principalId).map (·.id)
  (id, { id := id.getD 0, principalType := input.principalType, principalId := input.principalId
         permission := input.permission.getD .use, budgetId := input.budgetId
         grantedBy := some actorId, expiresAt := input.expiresAt })

namespace World

def save (w : World) (id : Option Nat) (row : Grant) : World :=
  let row := { row with id := id.getD w.nextId }
  { w with
    table := w.table.filter (·.id ≠ row.id) ++ [row]
    nextId := if id.isNone then w.nextId + 1 else w.nextId }

def taken (w : World) (id : Option Nat) (row : Grant) : Bool :=
  w.table.any fun other => id ≠ some other.id && other.principalType = row.principalType &&
    other.principalId = row.principalId

end World

def advanceUse (w : World) (out : Outside) (connection : ConnectionLike) (context : GrantContext) :
    UseStage → World × UseStage
  | .asking =>
    if !out.ok then (w, .failed .outside)
    else
      match w.cache with
      | some hit =>
        if w.now - hit.at' < GRANT_CACHE_TTL_MS then (w, .given out.principal hit.grants)
        else (w, .finding out.principal w.now)
      | none => (w, .finding out.principal w.now)
  | .finding who at' => if !out.ok then (w, .failed .outside) else (w, .found who at' w.table)
  | .found who at' grants => ({ w with cache := some ⟨at', grants⟩ }, .given who grants)
  | .given who grants => (w, .decided grants (useOutcome connection context who grants))
  | stage => (w, stage)

def advanceGrant (w : World) (out : Outside) (input : GrantInput) (actorId : String) :
    GrantStage → World × GrantStage
  | .opening =>
    if !out.ok then (w, .failed .outside) else (w, .reading out.connection out.principal)
  | .reading connection principal =>
    if !out.ok then (w, .failed .outside)
    else
      match grantRefusal connection principal w.table input w.now with
      | some error => (w, .failed error)
      | none => (w, .checking w.table)
  | .checking existing =>
    if !out.ok then (w, .failed .outside)
    else
      let (id, row) := grantRow existing input actorId
      (w, .saving id row)
  | .saving id row =>
    if !out.ok || w.taken id row then (w, .failed .outside) else (w.save id row, .saved row)
  | .saved row => ({ w with cache := none }, .logging row)
  | .logging row => (w, if out.ok then .returned row else .failed .outside)
  | stage => (w, stage)

def advanceRevoke (w : World) (out : Outside) (grantId : Nat) : RevokeStage → World × RevokeStage
  | .opening =>
    if !out.ok then (w, .failed .outside)
    else
      match w.table.find? (·.id = grantId) with
      | none => (w, .failed .grantNotFound)
      | some row => (w, .loading row)
  | .loading row =>
    if !out.ok then (w, .failed .outside) else (w, .reading row out.connection out.principal)
  | .reading row connection principal =>
    if !out.ok then (w, .failed .outside)
    else
      match assertOversight connection principal w.table w.now with
      | some error => (w, .failed error)
      | none => (w, .removing row)
  | .removing row =>
    if !out.ok then (w, .failed .outside)
    else
      ({ w with
          table := w.table.filter (·.id ≠ row.id)
          history := { w.history with removed := row.id :: w.history.removed } }, .removed row)
  | .removed row =>
    ({ w with
        cache := none
        history := { w.history with dropped := row.id :: w.history.dropped } }, .logging row)
  | .logging row =>
    if !out.ok then (w, .failed .outside)
    else
      ({ w with history := { w.history with returned := row.id :: w.history.returned } },
        .returned row)
  | stage => (w, stage)

def advance (w : World) (out : Outside) : Call → World × Call
  | .assertCanUse connection context after stage =>
    ((advanceUse w out connection context stage).1,
      .assertCanUse connection context after (advanceUse w out connection context stage).2)
  | .grant input actorId stage =>
    ((advanceGrant w out input actorId stage).1,
      .grant input actorId (advanceGrant w out input actorId stage).2)
  | .revoke grantId stage =>
    ((advanceRevoke w out grantId stage).1, .revoke grantId (advanceRevoke w out grantId stage).2)

inductive Action
  | tick (now : Int)
  | assertCanUse (connection : ConnectionLike) (context : UseContext)
  | grant (input : GrantInput) (actorId : String)
  | revoke (grantId : Nat)
  | advance (i : Nat) (out : Outside)

def step (w : World) : Action → World
  | .tick now => { w with now := now }
  | .assertCanUse connection context =>
    { w with calls := w.calls ++
        [.assertCanUse connection (useContext context w.now) w.history.returned .asking] }
  | .grant input actorId => { w with calls := w.calls ++ [.grant input actorId .opening] }
  | .revoke grantId => { w with calls := w.calls ++ [.revoke grantId .opening] }
  | .advance i out =>
    match w.calls[i]? with
    | none => w
    | some call =>
      let (w', call') := advance w out call
      { w' with calls := w'.calls.set i call' }

def World.start (table : List Grant) (now : Int) : World where
  table := table
  cache := none
  now := now
  nextId := (table.map (·.id)).foldr max 0 + 1
  calls := []
  history := { removed := [], dropped := [], returned := [] }

/-! ## Decisions, and the steps that spoil them -/

def Call.Fresh : Call → Prop
  | .assertCanUse _ _ after (.decided grants _) => ∀ grant ∈ grants, grant.id ∉ after
  | _ => True

instance : DecidablePred Call.Fresh
  | .assertCanUse _ _ after (.decided grants _) =>
    inferInstanceAs (Decidable (∀ grant ∈ grants, grant.id ∉ after))
  | .assertCanUse _ _ _ .asking | .assertCanUse _ _ _ (.finding ..)
  | .assertCanUse _ _ _ (.found ..) | .assertCanUse _ _ _ (.given ..)
  | .assertCanUse _ _ _ (.failed _) | .grant .. | .revoke .. => inferInstanceAs (Decidable True)

def careful (w : World) : Action → Bool
  | .advance i out =>
    match w.calls[i]? with
    | some (.assertCanUse _ _ _ (.found _ _ grants)) =>
      grants.all fun grant => !(w.history.dropped.contains grant.id)
    | some (.grant _ _ (.saving (some id) row)) =>
      !out.ok || w.taken (some id) row || !(w.history.removed.contains id)
    | _ => true
  | _ => true

/-! ## The invariant -/

def UseStage.grants : UseStage → List Grant
  | .found _ _ grants | .given _ grants | .decided grants _ => grants
  | .asking | .finding .. | .failed _ => []

def Call.rowIds : Call → List Nat
  | .grant _ _ (.checking existing) => existing.map (·.id)
  | .grant _ _ (.saving id _) => id.toList
  | .revoke _ (.loading row) | .revoke _ (.reading row _ _) | .revoke _ (.removing row) => [row.id]
  | _ => []

def Call.Good (past : History) : Call → Prop
  | .assertCanUse _ _ after stage =>
    (∀ id ∈ after, id ∈ past.returned) ∧ ∀ grant ∈ stage.grants, grant.id ∉ after
  | .revoke _ (.removed row) => row.id ∈ past.removed
  | .revoke _ (.logging row) => row.id ∈ past.dropped
  | _ => True

structure Inv (w : World) : Prop where
  ids : ∀ grant ∈ w.table, grant.id < w.nextId
  removedIds : ∀ id ∈ w.history.removed, id < w.nextId
  rowIds : ∀ call ∈ w.calls, ∀ id ∈ call.rowIds, id < w.nextId
  dropped : ∀ id ∈ w.history.dropped, id ∈ w.history.removed
  returned : ∀ id ∈ w.history.returned, id ∈ w.history.dropped
  gone : ∀ grant ∈ w.table, grant.id ∉ w.history.removed
  cached : ∀ entry, w.cache = some entry → ∀ grant ∈ entry.grants, grant.id ∉ w.history.dropped
  calls : ∀ call ∈ w.calls, call.Good w.history

structure Grows (w w' : World) : Prop where
  nextId : w.nextId ≤ w'.nextId
  removed : ∀ id ∈ w.history.removed, id ∈ w'.history.removed
  dropped : ∀ id ∈ w.history.dropped, id ∈ w'.history.dropped
  returned : ∀ id ∈ w.history.returned, id ∈ w'.history.returned
  calls : w'.calls = w.calls

variable {call : Call}

theorem Call.Good.mono {w w' : World} (hg : Grows w w') (h : call.Good w.history) :
    call.Good w'.history := by
  match call, h with
  | .assertCanUse _ _ _ _, h => exact ⟨fun id hid => hg.returned id (h.1 id hid), h.2⟩
  | .revoke _ (.removed row), h => exact hg.removed row.id h
  | .revoke _ (.logging row), h => exact hg.dropped row.id h
  | .grant _ _ _, _ | .revoke _ .opening, _ | .revoke _ (.loading _), _
  | .revoke _ (.reading ..), _ | .revoke _ (.removing _), _ | .revoke _ (.returned _), _
  | .revoke _ (.failed _), _ => trivial

structure Moved (w : World) (call : Call) : Prop where
  ids : ∀ grant ∈ w.table, grant.id < w.nextId
  removedIds : ∀ id ∈ w.history.removed, id < w.nextId
  dropped : ∀ id ∈ w.history.dropped, id ∈ w.history.removed
  returned : ∀ id ∈ w.history.returned, id ∈ w.history.dropped
  gone : ∀ grant ∈ w.table, grant.id ∉ w.history.removed
  cached : ∀ entry, w.cache = some entry → ∀ grant ∈ entry.grants, grant.id ∉ w.history.dropped
  rows : ∀ id ∈ call.rowIds, id < w.nextId
  good : call.Good w.history

theorem Inv.set {w w' : World} {i : Nat} (h : Inv w) (hg : Grows w w') (hm : Moved w' call) :
    Inv { w' with calls := w'.calls.set i call } where
  ids := hm.ids
  removedIds := hm.removedIds
  dropped := hm.dropped
  returned := hm.returned
  gone := hm.gone
  cached := hm.cached
  rowIds call' hcall' id hid := by
    rcases mem_or_eq_of_mem_set hcall' with hmem | rfl
    · rw [hg.calls] at hmem
      exact Nat.lt_of_lt_of_le (h.rowIds call' hmem id hid) hg.nextId
    · exact hm.rows id hid
  calls call' hcall' := by
    rcases mem_or_eq_of_mem_set hcall' with hmem | rfl
    · rw [hg.calls] at hmem
      have hgood := (h.calls call' hmem).mono hg
      exact hgood
    · exact hm.good

theorem Grows.of_eq {w w' : World} (hn : w.nextId ≤ w'.nextId) (hh : w'.history = w.history)
    (hc : w'.calls = w.calls) : Grows w w' where
  nextId := hn
  removed id hid := by rwa [hh]
  dropped id hid := by rwa [hh]
  returned id hid := by rwa [hh]
  calls := hc

theorem Grows.refl (w : World) : Grows w w := .of_eq (Nat.le_refl _) rfl rfl

variable {w : World}

theorem Inv.moved (h : Inv w) (hrows : ∀ id ∈ call.rowIds, id < w.nextId)
    (hgood : call.Good w.history) : Moved w call :=
  { h with rows := hrows, good := hgood }

theorem Inv.advanceUse (h : Inv w) (out : Outside) {connection : ConnectionLike}
    {context : GrantContext} {after : List Nat} {stage : UseStage}
    (hgood : (Call.assertCanUse connection context after stage).Good w.history)
    (hcareful : ∀ who at' grants, stage = .found who at' grants →
      ∀ grant ∈ grants, grant.id ∉ w.history.dropped) :
    Grows w (advanceUse w out connection context stage).1 ∧
      Moved (advanceUse w out connection context stage).1
        (.assertCanUse connection context after
          (Connections.advanceUse w out connection context stage).2) := by
  have hlist {grants : List Grant} (hgrants : ∀ grant ∈ grants, grant.id ∉ w.history.dropped) :
      ∀ grant ∈ grants, grant.id ∉ after := fun grant hgrant hafter =>
    hgrants grant hgrant (h.returned _ (hgood.1 _ hafter))
  have hstill {stage' : UseStage} (hgrants : ∀ grant ∈ stage'.grants, grant.id ∉ after) :
      Moved w (.assertCanUse connection context after stage') :=
    h.moved (fun _ hid => by cases hid) ⟨hgood.1, hgrants⟩
  cases stage with
  | asking =>
    unfold Connections.advanceUse
    dsimp only
    split
    · exact ⟨.refl w, hstill fun _ hgrant => by cases hgrant⟩
    split
    next hit hcache =>
      split
      · exact ⟨.refl w, hstill (hlist (h.cached hit hcache))⟩
      · exact ⟨.refl w, hstill fun _ hgrant => by cases hgrant⟩
    · exact ⟨.refl w, hstill fun _ hgrant => by cases hgrant⟩
  | finding who at' =>
    unfold Connections.advanceUse
    dsimp only
    split
    · exact ⟨.refl w, hstill fun _ hgrant => by cases hgrant⟩
    · -- the rows of the table are the ones no revoke has removed
      exact ⟨.refl w, hstill (hlist fun grant hgrant hdropped =>
        h.gone grant hgrant (h.dropped _ hdropped))⟩
  | found who at' grants =>
    refine ⟨.of_eq (Nat.le_refl _) rfl rfl,
      { h with cached := fun entry hentry => ?_, rows := fun _ hid => by cases hid
               good := ⟨hgood.1, hgood.2⟩ }⟩
    obtain rfl := some.inj hentry
    exact hcareful who at' grants rfl
  | given | decided | failed => exact ⟨.refl w, hstill hgood.2⟩

theorem Inv.save (h : Inv w) {id : Option Nat} {row : Grant}
    (hid : ∀ n ∈ id.toList, n < w.nextId ∧ n ∉ w.history.removed) (hrows : call.rowIds = [])
    (hgood : call.Good w.history) : Grows w (w.save id row) ∧ Moved (w.save id row) call := by
  have hnext : w.nextId ≤ (w.save id row).nextId := by
    unfold World.save
    dsimp only
    split <;> omega
  -- the id the row is written under
  have hnew : id.getD w.nextId < (w.save id row).nextId ∧ id.getD w.nextId ∉ w.history.removed := by
    cases id with
    | none => exact ⟨Nat.lt_succ_self _, fun hmem => Nat.lt_irrefl _ (h.removedIds _ hmem)⟩
    | some n => exact hid n (mem_singleton_self n)
  have htable : ∀ grant ∈ (w.save id row).table, grant ∈ w.table ∨ grant.id = id.getD w.nextId := by
    intro grant hgrant
    rcases mem_append.mp hgrant with hmem | hmem
    · exact .inl (mem_filter.mp hmem).1
    · rw [mem_singleton.mp hmem]
      exact .inr rfl
  refine ⟨.of_eq hnext rfl rfl, { h with
    ids := fun grant hgrant => ?_
    removedIds := fun n hn => Nat.lt_of_lt_of_le (h.removedIds n hn) hnext
    gone := fun grant hgrant => ?_
    rows := by rw [hrows]; exact fun _ hn => by cases hn
    good := hgood }⟩
  · rcases htable grant hgrant with hmem | heq
    · exact Nat.lt_of_lt_of_le (h.ids grant hmem) hnext
    · rw [heq]
      exact hnew.1
  · rcases htable grant hgrant with hmem | heq
    · exact h.gone grant hmem
    · rw [heq]
      exact hnew.2

theorem Inv.advanceGrant (h : Inv w) (out : Outside) {input : GrantInput} {actorId : String}
    {stage : GrantStage} (hrows : ∀ id ∈ (Call.grant input actorId stage).rowIds, id < w.nextId)
    (hcareful : ∀ id row, stage = .saving (some id) row → out.ok = true →
      w.taken (some id) row = false → id ∉ w.history.removed) :
    Grows w (Connections.advanceGrant w out input actorId stage).1 ∧
      Moved (Connections.advanceGrant w out input actorId stage).1
        (.grant input actorId (Connections.advanceGrant w out input actorId stage).2) := by
  have hstill {stage' : GrantStage}
      (hrows : ∀ id ∈ (Call.grant input actorId stage').rowIds, id < w.nextId) :
      Moved w (.grant input actorId stage') := h.moved hrows trivial
  have hnone {stage' : GrantStage} (hnil : (Call.grant input actorId stage').rowIds = []) :
      Moved w (.grant input actorId stage') := hstill (by rw [hnil]; exact fun _ hid => by cases hid)
  unfold Connections.advanceGrant
  cases stage with
  | opening | logging =>
    dsimp only
    split <;> exact ⟨.refl w, hnone rfl⟩
  | reading connection principal =>
    dsimp only
    split
    · exact ⟨.refl w, hnone rfl⟩
    split
    · exact ⟨.refl w, hnone rfl⟩
    · refine ⟨.refl w, hstill fun id hid => ?_⟩
      obtain ⟨row, hrow, rfl⟩ := mem_map.mp hid
      exact h.ids row hrow
  | checking existing =>
    dsimp only
    split
    · exact ⟨.refl w, hnone rfl⟩
    · refine ⟨.refl w, hstill fun id hid => ?_⟩
      -- the id is that of a row it read
      have hmem : id ∈ (grantRow existing input actorId).1 := mem_toList.mp hid
      obtain ⟨row, hrow, rfl⟩ := map_eq_some_iff.mp hmem
      exact hrows row.id (mem_map_of_mem (List.mem_of_find?_eq_some hrow))
  | saving id row =>
    dsimp only
    split
    · exact ⟨.refl w, hnone rfl⟩
    next hgoes =>
      rw [Bool.or_eq_true, not_or] at hgoes
      refine h.save (fun n hn => ⟨hrows n hn, ?_⟩) rfl trivial
      obtain rfl : id = some n := mem_toList.mp hn
      exact hcareful n row rfl (by simpa using hgoes.1) (by simpa using hgoes.2)
  | saved row =>
    exact ⟨.of_eq (Nat.le_refl _) rfl rfl,
      { h with cached := fun _ hentry => (nomatch hentry), rows := fun _ hid => by cases hid
               good := trivial }⟩
  | returned | failed => exact ⟨.refl w, hnone rfl⟩

theorem Inv.advanceRevoke (h : Inv w) (out : Outside) {grantId : Nat} {stage : RevokeStage}
    (hrows : ∀ id ∈ (Call.revoke grantId stage).rowIds, id < w.nextId)
    (hgood : (Call.revoke grantId stage).Good w.history) :
    Grows w (Connections.advanceRevoke w out grantId stage).1 ∧
      Moved (Connections.advanceRevoke w out grantId stage).1
        (.revoke grantId (Connections.advanceRevoke w out grantId stage).2) := by
  have hfailed {error : GrantError} : Moved w (.revoke grantId (.failed error)) :=
    h.moved (fun _ hid => by cases hid) trivial
  unfold Connections.advanceRevoke
  cases stage with
  | opening =>
    dsimp only
    split
    · exact ⟨.refl w, hfailed⟩
    split
    · exact ⟨.refl w, hfailed⟩
    next row hrow =>
      refine ⟨.refl w, h.moved (fun id hid => ?_) trivial⟩
      rw [mem_singleton.mp hid]
      exact h.ids row (List.mem_of_find?_eq_some hrow)
  | loading row =>
    dsimp only
    split
    · exact ⟨.refl w, hfailed⟩
    · exact ⟨.refl w, h.moved hrows trivial⟩
  | reading row connection principal =>
    dsimp only
    split
    · exact ⟨.refl w, hfailed⟩
    split
    · exact ⟨.refl w, hfailed⟩
    · exact ⟨.refl w, h.moved hrows trivial⟩
  | removing row =>
    dsimp only
    split
    · exact ⟨.refl w, hfailed⟩
    · have hmore : ∀ id ∈ w.history.removed, id ∈ row.id :: w.history.removed :=
        fun id hid => mem_cons_of_mem _ hid
      refine ⟨⟨Nat.le_refl _, hmore, fun _ => id, fun _ => id, rfl⟩,
        { h with
          ids := fun grant hgrant => h.ids grant (mem_filter.mp hgrant).1
          removedIds := fun n hn => ?_
          dropped := fun n hn => hmore n (h.dropped n hn)
          gone := fun grant hgrant => ?_
          rows := fun _ hid => by cases hid
          good := mem_cons_self }⟩
      · rcases mem_cons.mp hn with rfl | hn
        · exact hrows row.id (mem_singleton_self _)
        · exact h.removedIds n hn
      · obtain ⟨hgrant, hne⟩ := mem_filter.mp hgrant
        rw [mem_cons, not_or]
        exact ⟨by simpa using hne, h.gone grant hgrant⟩
  | removed row =>
    have hmore : ∀ id ∈ w.history.dropped, id ∈ row.id :: w.history.dropped :=
      fun id hid => mem_cons_of_mem _ hid
    refine ⟨⟨Nat.le_refl _, fun _ => id, hmore, fun _ => id, rfl⟩,
      { h with
        dropped := fun n hn => ?_
        returned := fun n hn => hmore n (h.returned n hn)
        cached := fun _ hentry => (nomatch hentry)
        rows := fun _ hid => by cases hid
        good := mem_cons_self }⟩
    rcases mem_cons.mp hn with rfl | hn
    · exact hgood
    · exact h.dropped n hn
  | logging row =>
    dsimp only
    split
    · exact ⟨.refl w, hfailed⟩
    · refine ⟨⟨Nat.le_refl _, fun _ => id, fun _ => id, fun id hid => mem_cons_of_mem _ hid, rfl⟩,
        { h with
          returned := fun n hn => ?_
          rows := fun _ hid => by cases hid
          good := trivial }⟩
      rcases mem_cons.mp hn with rfl | hn
      · exact hgood
      · exact h.returned n hn
  | returned row => exact ⟨.refl w, h.moved (fun _ hid => by cases hid) trivial⟩
  | failed error => exact ⟨.refl w, hfailed⟩

theorem Inv.push (h : Inv w) (hrows : call.rowIds = []) (hgood : call.Good w.history) :
    Inv { w with calls := w.calls ++ [call] } :=
  { h with
    rowIds := fun call' hcall' id hid => by
      rcases mem_append.mp hcall' with hmem | hmem
      · exact h.rowIds call' hmem id hid
      · rw [mem_singleton.mp hmem, hrows] at hid
        cases hid
    calls := fun call' hcall' => by
      rcases mem_append.mp hcall' with hmem | hmem
      · exact h.calls call' hmem
      · rw [mem_singleton.mp hmem]
        exact hgood }

theorem Inv.step {a : Action} (h : Inv w) (hc : careful w a = true) : Inv (step w a) := by
  cases a with
  | tick now => exact { h with }
  | assertCanUse connection context =>
    exact h.push rfl ⟨fun _ => id, fun _ hgrant => by cases hgrant⟩
  | grant | revoke => exact h.push rfl trivial
  | advance i out =>
    unfold Connections.step
    dsimp only
    split
    · exact h
    next call hcall =>
      have hmem := List.mem_of_getElem? hcall
      simp only [careful, hcall] at hc
      cases call with
      | assertCanUse connection context after stage =>
        obtain ⟨hg, hm⟩ := h.advanceUse out (h.calls _ hmem) fun who at' grants hstage => by
          subst hstage
          simpa using hc
        exact h.set hg hm
      | grant input actorId stage =>
        obtain ⟨hg, hm⟩ := h.advanceGrant out (h.rowIds _ hmem) fun id row hstage => by
          subst hstage
          intro hok htaken
          simpa [hok, htaken] using hc
        exact h.set hg hm
      | revoke grantId stage =>
        obtain ⟨hg, hm⟩ := h.advanceRevoke out (h.rowIds _ hmem) (h.calls _ hmem)
        exact h.set hg hm

theorem inv_start (table : List Grant) (now : Int) : Inv (World.start table now) where
  ids grant hgrant :=
    Nat.lt_succ_of_le (le_max_of_le' 0 (mem_map_of_mem hgrant) (Nat.le_refl _))
  removedIds _ h := by cases h
  rowIds _ h := by cases h
  dropped _ h := by cases h
  returned _ h := by cases h
  gone _ _ h := by cases h
  cached _ h := by cases h
  calls _ h := by cases h

theorem revoked_grant_stops (table : List Grant) (now : Int) (acts : List Action)
    (hcareful : Steps.Along step (careful · · = true) (World.start table now) acts) :
    ∀ call ∈ (Steps.run step (World.start table now) acts).calls, call.Fresh := by
  have hinv : Inv (Steps.run step (World.start table now) acts) :=
    Steps.run_invariant Inv (fun _ _ h hc => h.step hc) (inv_start table now) hcareful
  intro call hcall
  have hgood := hinv.calls call hcall
  cases call with
  | assertCanUse connection context after stage =>
    cases stage with
    | decided grants result => exact hgood.2
    | _ => trivial
  | grant | revoke => trivial

section

private def uma : GrantPrincipal := { userId := "uma", roles := ["member"], teamIds := [] }

private def vic : GrantPrincipal := { userId := "vic", roles := ["member"], teamIds := [] }

private def umasConnection : ConnectionLike := { organizationId := "org", ownerUserId := some "uma" }

private def vicMayUse : Grant where
  id := 1
  principalType := .user
  principalId := "vic"
  permission := .use
  budgetId := none
  grantedBy := some "uma"
  expiresAt := none

private def revokeByUma (i : Nat) : List Action :=
  .revoke 1 :: List.replicate 6 (.advance i { connection := umasConnection, principal := uma })

private def useByVic (i n : Nat) : List Action :=
  .assertCanUse umasConnection {} :: List.replicate n (.advance i { principal := vic })

/-- A use before and a use after a revoke, neither across it. -/
theorem revoked_grant_stops_in_turn :
    let w := Steps.run step (World.start [vicMayUse] 0)
      (useByVic 0 4 ++ revokeByUma 1 ++ useByVic 2 4)
    w.calls.length = 3 ∧ ∀ call ∈ w.calls, call.Fresh :=
  ⟨by decide +kernel, revoked_grant_stops [vicMayUse] 0 _ (by decide +kernel)⟩

/-- A list read before the revoke lands after it: who asks next is let through by the revoked grant.
-/
theorem revoked_grant_served_from_memory :
    ¬∀ call ∈ (Steps.run step (World.start [vicMayUse] 0)
      (useByVic 0 2 ++ revokeByUma 1 ++ [.advance 0 {}] ++ useByVic 2 2)).calls, call.Fresh := by
  decide +kernel

end

end Almyty.Connections
