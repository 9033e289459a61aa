import Almyty.Tools.HeldCalls

/-!
# Which held calls share a request: `hold`, `stateOf`

`hold` looks for a pending request of the same tool and fingerprint and gives the caller that one;
without one it raises a request of its own. Between the two other calls may look and raise, and
nothing in the table keeps two requests apart or together: the unique index is on the run and tool
call, which a held call has neither of. `stateOf` then answers whoever comes back with a request's
id.

So a request's calls are the calls of one caller only where callers keep apart by themselves.
`held_calls_kept_apart` says what has to hold at each lookup for that: the request found was raised
for the same call, agent, user, principal, gateway and scopes included, and nobody with that very
call is between its lookup and its insert.
-/

namespace Almyty.Tools

open Almyty.Lib List
open Almyty.Approvals

structure HeldCall (engine : Engine) where
  params : Params
  hit : ApprovalGateHit
  fingerprint : hit.paramsHash = paramsHash engine params
  context : GateContext
  call : HeldCallContext

structure CallKey where
  toolId : String
  fingerprint : String
  agentId : Option String
  userId : Option String
  principal : Option Json
  gatewayId : Option String
  scopes : Option (List String)

def callKey (hit : ApprovalGateHit) (agentId : Option String) (call : HeldCallContext) :
    CallKey where
  toolId := hit.toolId
  fingerprint := hit.paramsHash
  agentId := agentId
  userId := call.caller.userId
  principal := call.caller.principal
  gatewayId := call.gatewayId
  scopes := call.caller.scopes

def HeldCall.key {engine : Engine} (c : HeldCall engine) : CallKey :=
  callKey c.hit c.context.agentId c.call

def HeldRequest.key (row : HeldRequest) : CallKey := callKey row.hit row.agentId row.call

inductive Hold (engine : Engine)
  | idle
  /-- It found no pending request and is about to raise one. -/
  | looked (c : HeldCall engine)
  | answered (c : HeldCall engine) (id : Option String)

/-- The held calls of an organization. -/
structure Org (engine : Engine) extends System where
  holds : Nat → Hold engine := fun _ => .idle

inductive OrgAction (engine : Engine)
  /-- `hold` looks for a pending request. -/
  | look (i : Nat) (c : HeldCall engine)
  /-- It raises a request. -/
  | raise (i : Nat) (newId : String)
  /-- It has nobody to raise a request with. -/
  | giveUp (i : Nat)
  | decide (id : String) (status : ApprovalStatus) (reason : Option String)
  | load (i : Nat) (id : String)
  | claim (i : Nat)
  | execute (i : Nat) (tool : Tool) (world : World)
  | keep (i : Nat) (result : Json)
  /-- A caller comes back with an approval id and the call it holds. -/
  | collect (id : String) (c : HeldCall engine)

def findPending (requests : List HeldRequest) (hit : ApprovalGateHit) : Option HeldRequest :=
  requests.find? fun row => row.hit.toolId = hit.toolId &&
    row.hit.paramsHash = hit.paramsHash && row.status = .pending

/-- The row `hold` inserts. -/
def raised {engine : Engine} (c : HeldCall engine) (newId : String) : HeldRequest where
  id := newId
  hit := c.hit
  parameters := c.params.toFields
  call := c.call
  agentId := c.context.agentId

namespace Org

variable {engine : Engine}

def setHold (s : Org engine) (i : Nat) (h : Hold engine) : Org engine :=
  { s with holds := fun j => if j = i then h else s.holds j }

def look (s : Org engine) (i : Nat) (c : HeldCall engine) : Org engine :=
  match s.holds i with
  | .idle =>
    match findPending s.requests c.hit with
    | some pending => s.setHold i (.answered c (some pending.id))
    | none => s.setHold i (.looked c)
  | _ => s

def raise (s : Org engine) (i : Nat) (newId : String) : Org engine :=
  match s.holds i with
  | .looked c =>
    if s.requests.any (·.id = newId) then s
    else
      let requests := s.requests ++ [raised c newId]
      { s with requests }.setHold i (.answered c (some newId))
  | _ => s

def giveUp (s : Org engine) (i : Nat) : Org engine :=
  match s.holds i with
  | .looked c => s.setHold i (.answered c none)
  | _ => s

def execute (s : Org engine) (i : Nat) (tool : Tool) (world : World) : Org engine :=
  match s.calls i with
  | .claimed row =>
    if tool.id = row.hit.toolId then
      match (heldOutcome engine tool world s.requests row).1 with
      | .dispatched params =>
        let dispatches := s.dispatches ++ [(row.id, params)]
        { s with toSystem := { s.toSystem with dispatches }.setCall i (.ran row) }
      | _ => { s with toSystem := s.toSystem.setCall i (.ran row) }
    else { s with toSystem := s.toSystem.setCall i (.ran row) }
  | _ => s

def step (s : Org engine) : OrgAction engine → Org engine
  | .look i c => s.look i c
  | .raise i newId => s.raise i newId
  | .giveUp i => s.giveUp i
  | .decide id status reason => { s with toSystem := s.toSystem.decide id status reason }
  | .load i id => { s with toSystem := s.toSystem.load i id }
  | .claim i => { s with toSystem := s.toSystem.claim i }
  | .execute i tool world => s.execute i tool world
  | .keep i result => { s with toSystem := s.toSystem.keep i result }
  | .collect _ _ => s

end Org

/-! ## What the steps on stored requests do -/

structure Updated (requests requests' : List HeldRequest) : Prop where
  ids : requests'.map (·.id) = requests.map (·.id)
  back : ∀ row' ∈ requests', ∃ row ∈ requests, row'.id = row.id ∧ row'.key = row.key ∧
    (row'.status = .pending → row.status = .pending) ∧
    ((row.resultAt = true → row.status = .approved) →
      row'.resultAt = true → row'.status = .approved)

theorem Updated.refl (requests : List HeldRequest) : Updated requests requests where
  ids := rfl
  back row hrow := ⟨row, hrow, rfl, rfl, fun h => h, fun h => h⟩

theorem updated_updateRows {requests : List HeldRequest} {p : HeldRequest → Bool}
    {f : HeldRequest → HeldRequest} (hid : ∀ row, (f row).id = row.id)
    (hkey : ∀ row, (f row).key = row.key)
    (hstatus : ∀ row, p row = true → ((f row).status = .pending → row.status = .pending) ∧
      ((row.resultAt = true → row.status = .approved) →
        (f row).resultAt = true → (f row).status = .approved)) :
    Updated requests (updateRows requests p f) where
  ids := updateRows_ids hid
  back row' hrow' := by
    obtain ⟨row, hrow, rfl⟩ := mem_map.mp hrow'
    refine ⟨row, hrow, ?_⟩
    split
    · next hp => exact ⟨hid row, hkey row, hstatus row hp⟩
    · exact ⟨rfl, rfl, fun h => h, fun h => h⟩

section

variable {s : System}

theorem System.decide_updated (s : System) (id : String) (status : ApprovalStatus)
    (reason : Option String) : Updated s.requests (s.decide id status reason).requests := by
  refine updated_updateRows (fun _ => rfl) (fun _ => rfl) ?_
  intro row hp
  simp only [Bool.and_eq_true, decide_eq_true_eq] at hp
  refine ⟨fun _ => hp.2, ?_⟩
  -- a pending request has no claim
  intro happroved hset
  have := happroved hset
  rw [hp.2] at this
  cases this

theorem System.claim_updated (s : System) (i : Nat) : Updated s.requests (s.claim i).requests := by
  unfold System.claim
  split
  · next row hrow =>
    split
    · refine updated_updateRows (fun _ => rfl) (fun _ => rfl) ?_
      intro r hp
      simp only [claimable, Bool.and_eq_true, decide_eq_true_eq] at hp
      exact ⟨fun h => h, fun _ _ => hp.1.2⟩
    · exact .refl _
  · exact .refl _

theorem System.keep_updated (s : System) (i : Nat) (result : Json) :
    Updated s.requests (s.keep i result).requests := by
  unfold System.keep
  split
  · exact updated_updateRows (fun _ => rfl) (fun _ => rfl) fun _ _ => ⟨fun h => h, fun h => h⟩
  · exact .refl _

theorem System.load_requests (s : System) (i : Nat) (id : String) :
    (s.load i id).requests = s.requests := by
  unfold System.load
  split
  · split
    · split <;> rfl
    · rfl
  · rfl

theorem Claims.ends (h : Claims s) (i : Nat) : Claims (s.setCall i .ended) := by
  refine h.move i ?_
  intro r hr
  cases hr

theorem Claims.decides (h : Claims s) (id : String) (status : ApprovalStatus)
    (reason : Option String) : Claims (s.decide id status reason) := by
  refine h.withRequests (extends_updateRows fun row hp => ⟨rfl, rfl, ?_, fun hset => hset⟩)
  intro happroved
  simp [happroved] at hp

theorem Claims.load (h : Claims s) (i : Nat) (id : String) : Claims (s.load i id) := by
  unfold System.load
  split
  swap
  · exact h
  split
  · split
    · refine h.move i ?_
      intro r hr
      cases hr
    · exact h.ends i
  · exact h.ends i

theorem Claims.claims (h : Claims s) (hids : (s.requests.map (·.id)).Nodup) (i : Nat) :
    Claims (s.claim i) := by
  unfold System.claim
  split
  · next row hrow =>
    split
    · next hany =>
      obtain ⟨hfree, hclaimed⟩ := claim_requests hids hany
      exact h.claim hfree
        (extends_updateRows fun _ _ => ⟨rfl, rfl, fun hs => hs, fun _ => rfl⟩) hclaimed
    · exact h.ends i
  · exact h

theorem Claims.keeps (h : Claims s) (i : Nat) (result : Json) : Claims (s.keep i result) := by
  unfold System.keep
  split
  · refine Claims.ends ?_ i
    exact h.withRequests
      (extends_updateRows fun _ _ => ⟨rfl, rfl, fun hs => hs, fun hset => hset⟩)
  · exact h

end

/-! ## Calls kept apart -/

section

variable {engine : Engine} {s : Org engine}

/-- What the lookups and inserts keep when callers keep apart. -/
structure Separate (s : Org engine) : Prop where
  ids : (s.requests.map (·.id)).Nodup
  claims : Claims s.toSystem
  approved : ∀ row ∈ s.requests, row.resultAt = true → row.status = .approved
  given : ∀ i c id, s.holds i = .answered c (some id) →
    ∃ row ∈ s.requests, row.id = id ∧ row.key = c.key
  owned : ∀ row ∈ s.requests, ∃ i c, s.holds i = .answered c (some row.id)
  single : ∀ row ∈ s.requests, ∀ row' ∈ s.requests, row.status = .pending →
    row'.status = .pending → row.key = row'.key → row.id = row'.id
  unraised : ∀ i c, s.holds i = .looked c →
    ∀ row ∈ s.requests, row.status = .pending → row.key ≠ c.key
  alone : ∀ i j c c', s.holds i = .looked c → s.holds j = .looked c' → c.key = c'.key → i = j

theorem separate_init : Separate ({} : Org engine) where
  ids := nodup_nil
  claims := claims_init
  approved _ h := by cases h
  given _ _ _ h := by cases h
  owned _ h := by cases h
  single _ h := by cases h
  unraised _ _ h := by cases h
  alone _ _ _ _ h := by cases h

theorem Separate.unique (h : Separate s) {row row' : HeldRequest} (hrow : row ∈ s.requests)
    (hrow' : row' ∈ s.requests) (hid : row.id = row'.id) : row = row' :=
  inj_on_of_nodup_map h.ids hrow hrow' hid

theorem setHold_eq {i j : Nat} {x y : Hold engine} (h : (s.setHold i x).holds j = y) :
    j = i ∧ x = y ∨ j ≠ i ∧ s.holds j = y := by
  by_cases hj : j = i
  · exact .inl ⟨hj, (if_pos hj).symm.trans h⟩
  · exact .inr ⟨hj, (if_neg hj).symm.trans h⟩

theorem setHold_self (s : Org engine) (i : Nat) (x : Hold engine) :
    (s.setHold i x).holds i = x := if_pos rfl

theorem setHold_of_ne {i j : Nat} (hj : j ≠ i) (x : Hold engine) :
    (s.setHold i x).holds j = s.holds j := if_neg hj

theorem Separate.updated (h : Separate s) {t : System} (hrows : Updated s.requests t.requests)
    (hclaims : Claims t) : Separate { s with toSystem := t } where
  ids := by
    show (t.requests.map (·.id)).Nodup
    rw [hrows.ids]
    exact h.ids
  claims := hclaims
  approved row' hrow' := by
    obtain ⟨row, hrow, -, -, -, happroved⟩ := hrows.back row' hrow'
    exact happroved (h.approved row hrow)
  given i c id hheld := by
    obtain ⟨row, hrow, hid, hkey⟩ := h.given i c id hheld
    have hmem : row.id ∈ t.requests.map (·.id) := by
      rw [hrows.ids]
      exact mem_map_of_mem hrow
    obtain ⟨row', hrow', hid'⟩ := mem_map.mp hmem
    obtain ⟨r, hr, hrid, hrkey, -⟩ := hrows.back row' hrow'
    obtain rfl := h.unique hr hrow (hrid.symm.trans hid')
    exact ⟨row', hrow', hid'.trans hid, hrkey.trans hkey⟩
  owned row' hrow' := by
    obtain ⟨row, hrow, hid, -⟩ := hrows.back row' hrow'
    rw [hid]
    exact h.owned row hrow
  single r₁ hr₁ r₂ hr₂ hp₁ hp₂ hkey := by
    obtain ⟨row₁, hrow₁, hid₁, hkey₁, hpending₁, -⟩ := hrows.back r₁ hr₁
    obtain ⟨row₂, hrow₂, hid₂, hkey₂, hpending₂, -⟩ := hrows.back r₂ hr₂
    rw [hid₁, hid₂]
    exact h.single row₁ hrow₁ row₂ hrow₂ (hpending₁ hp₁) (hpending₂ hp₂)
      (hkey₁.symm.trans (hkey.trans hkey₂))
  unraised i c hlooked row' hrow' hp := by
    obtain ⟨row, hrow, -, hkey, hpending, -⟩ := hrows.back row' hrow'
    rw [hkey]
    exact h.unraised i c hlooked row hrow (hpending hp)
  alone := h.alone

theorem Separate.setHold (h : Separate s) {i : Nat} {x : Hold engine}
    (hopen : ∀ c id, s.holds i ≠ .answered c id)
    (hgiven : ∀ c id, x = .answered c (some id) → ∃ row ∈ s.requests, row.id = id ∧ row.key = c.key)
    (hlooked : ∀ c, x = .looked c → (∀ row ∈ s.requests, row.status = .pending → row.key ≠ c.key) ∧
      ∀ j c', s.holds j = .looked c' → c'.key ≠ c.key) :
    Separate (s.setHold i x) where
  ids := h.ids
  claims := h.claims
  approved := h.approved
  given j c id hj := by
    rcases setHold_eq hj with ⟨-, hx⟩ | ⟨-, hj⟩
    · exact hgiven c id hx
    · exact h.given j c id hj
  owned row hrow := by
    obtain ⟨j, c, hj⟩ := h.owned row hrow
    have hne : j ≠ i := by
      rintro rfl
      exact hopen _ _ hj
    exact ⟨j, c, (setHold_of_ne hne x).trans hj⟩
  single := h.single
  unraised j c hj := by
    rcases setHold_eq hj with ⟨-, hx⟩ | ⟨-, hj⟩
    · exact (hlooked c hx).1
    · exact h.unraised j c hj
  alone j k c c' hj hk hkey := by
    rcases setHold_eq hj with ⟨hji, hx⟩ | ⟨-, hj⟩
    · rcases setHold_eq hk with ⟨hki, -⟩ | ⟨-, hk⟩
      · rw [hji, hki]
      · exact absurd hkey.symm ((hlooked c hx).2 k c' hk)
    · rcases setHold_eq hk with ⟨-, hx⟩ | ⟨-, hk⟩
      · exact absurd hkey ((hlooked c' hx).2 j c hj)
      · exact h.alone j k c c' hj hk hkey

theorem findPending_some {requests : List HeldRequest} {hit : ApprovalGateHit}
    {row : HeldRequest} (h : findPending requests hit = some row) :
    row ∈ requests ∧ row.status = .pending := by
  have hrow := List.find?_some h
  simp only [Bool.and_eq_true, decide_eq_true_eq] at hrow
  exact ⟨List.mem_of_find?_eq_some h, hrow.2⟩

theorem findPending_none {requests : List HeldRequest} {c : HeldCall engine}
    (h : findPending requests c.hit = none) {row : HeldRequest} (hrow : row ∈ requests)
    (hpending : row.status = .pending) : row.key ≠ c.key := by
  intro hkey
  have htool : row.hit.toolId = c.hit.toolId := congrArg CallKey.toolId hkey
  have hhash : row.hit.paramsHash = c.hit.paramsHash := congrArg CallKey.fingerprint hkey
  have := List.find?_eq_none.mp h row hrow
  simp [htool, hhash, hpending] at this

theorem Separate.look (h : Separate s) {i : Nat} {c : HeldCall engine}
    (hfound : ∀ row, findPending s.requests c.hit = some row → row.key = c.key)
    (halone : ∀ j c', s.holds j = .looked c' → c'.key ≠ c.key) : Separate (s.look i c) := by
  unfold Org.look
  split
  · next hidle =>
    have hopen : ∀ c id, s.holds i ≠ .answered c id := by
      intro c id hanswered
      rw [hidle] at hanswered
      cases hanswered
    split
    · next pending hpending =>
      refine h.setHold hopen ?_ ?_
      · intro c' id hx
        cases hx
        exact ⟨pending, (findPending_some hpending).1, rfl, hfound pending hpending⟩
      · intro c' hx
        cases hx
    · next hnone =>
      refine h.setHold hopen ?_ ?_
      · intro c' id hx
        cases hx
      · intro c' hx
        cases hx
        exact ⟨fun row hrow => findPending_none hnone hrow, halone⟩
  · exact h

theorem Separate.giveUp (h : Separate s) (i : Nat) : Separate (s.giveUp i) := by
  unfold Org.giveUp
  split
  · next c hlooked =>
    refine h.setHold ?_ ?_ ?_
    · intro c id hanswered
      rw [hlooked] at hanswered
      cases hanswered
    · intro c' id hx
      cases hx
    · intro c' hx
      cases hx
  · exact h

theorem Separate.raise (h : Separate s) (i : Nat) (newId : String) :
    Separate (s.raise i newId) := by
  unfold Org.raise
  split
  swap
  · exact h
  next c hlooked =>
  split
  · exact h
  next hnew =>
  have hfresh : ∀ row ∈ s.requests, row.id ≠ newId := by
    intro row hrow hid
    exact hnew (any_eq_true.mpr ⟨row, hrow, by simpa using hid⟩)
  have hkey : (raised c newId).key = c.key := rfl
  refine ⟨?_, h.claims.withRequests (extends_append _ _), ?_, ?_, ?_, ?_, ?_, ?_⟩
  · show ((s.requests ++ [raised c newId]).map (·.id)).Nodup
    rw [map_append, nodup_append]
    refine ⟨h.ids, nodup_singleton _, ?_⟩
    intro a ha b hb
    obtain ⟨row, hrow, rfl⟩ := mem_map.mp ha
    rw [mem_singleton.mp hb]
    exact hfresh row hrow
  · intro row hrow hset
    rcases mem_append.mp hrow with hrow | hrow
    · exact h.approved row hrow hset
    · rw [mem_singleton.mp hrow] at hset
      cases hset
  · intro j c' id hj
    rcases setHold_eq hj with ⟨-, hx⟩ | ⟨-, hj⟩
    · cases hx
      exact ⟨_, mem_append_right _ (mem_singleton_self _), rfl, hkey⟩
    · obtain ⟨row, hrow, hrest⟩ := h.given j c' id hj
      exact ⟨row, mem_append_left _ hrow, hrest⟩
  · intro row hrow
    rcases mem_append.mp hrow with hrow | hrow
    · obtain ⟨j, c', hj⟩ := h.owned row hrow
      have hne : j ≠ i := by
        rintro rfl
        rw [hlooked] at hj
        cases hj
      exact ⟨j, c', (if_neg hne).trans hj⟩
    · rw [mem_singleton.mp hrow]
      exact ⟨i, c, if_pos rfl⟩
  · intro row hrow row' hrow' hp hp' hsame
    rcases mem_append.mp hrow with hrow | hrow
    · rcases mem_append.mp hrow' with hrow' | hrow'
      · exact h.single row hrow row' hrow' hp hp' hsame
      · rw [mem_singleton.mp hrow', hkey] at hsame
        exact absurd hsame (h.unraised i c hlooked row hrow hp)
    · rcases mem_append.mp hrow' with hrow' | hrow'
      · rw [mem_singleton.mp hrow, hkey] at hsame
        exact absurd hsame.symm (h.unraised i c hlooked row' hrow' hp')
      · rw [mem_singleton.mp hrow, mem_singleton.mp hrow']
  · intro j c' hj row hrow hp hsame
    rcases setHold_eq hj with ⟨-, hx⟩ | ⟨hne, hj⟩
    · cases hx
    rcases mem_append.mp hrow with hrow | hrow
    · exact h.unraised j c' hj row hrow hp hsame
    · rw [mem_singleton.mp hrow, hkey] at hsame
      exact hne (h.alone j i c' c hj hlooked hsame.symm)
  · intro j k c₁ c₂ hj hk hsame
    rcases setHold_eq hj with ⟨-, hx⟩ | ⟨-, hj⟩
    · cases hx
    rcases setHold_eq hk with ⟨-, hx⟩ | ⟨-, hk⟩
    · cases hx
    exact h.alone j k c₁ c₂ hj hk hsame

theorem Separate.execute (h : Separate s) (i : Nat) (tool : Tool) (world : World) :
    Separate (s.execute i tool world) := by
  unfold Org.execute
  split
  · next row hrow =>
    have hran : Claims (s.toSystem.setCall i (.ran row)) := by
      refine h.claims.move i ?_
      intro r hr
      cases hr
    split
    · split
      · exact h.updated (.refl _) (h.claims.spend hrow _)
      · exact h.updated (.refl _) hran
    · exact h.updated (.refl _) hran
  · exact h

def Pending (requests : List HeldRequest) (id : String) : Prop :=
  ∃ row ∈ requests, row.id = id ∧ row.status = .pending

def KeepsApart (s : Org engine) : OrgAction engine → Prop
  | .look i c => s.holds i = .idle →
    (∀ row, findPending s.requests c.hit = some row → row.key = c.key) ∧
      ∀ j c', s.holds j = .looked c' → c'.key ≠ c.key
  | .collect id c => ∃ i c', s.holds i = .answered c' (some id) ∧ c'.key = c.key
  | _ => True

structure NotMerged (s : Org engine) : Prop where
  /-- One request, one call. -/
  agree : ∀ i j c c' id, s.holds i = .answered c (some id) → s.holds j = .answered c' (some id) →
    c.key = c'.key
  /-- One call, one pending request. -/
  shared : ∀ i j c c' id id', s.holds i = .answered c (some id) →
    s.holds j = .answered c' (some id') → c.key = c'.key →
    Pending s.requests id → Pending s.requests id' → id = id'
  /-- No request is run twice. -/
  once : (s.dispatches.map Prod.fst).Nodup
  /-- What is run was approved, and asked for as it is stored. -/
  asked : ∀ id ∈ s.dispatches.map Prod.fst, ∃ row ∈ s.requests, row.id = id ∧
    row.status = .approved ∧ ∃ i c, s.holds i = .answered c (some id) ∧ c.key = row.key

def AnswersOwn (s : Org engine) : OrgAction engine → Prop
  | .look j c => ∀ i c' id, s.holds j = .idle → s.holds i = .answered c' (some id) →
    c'.key = c.key → Pending s.requests id → (s.look j c).holds j = .answered c (some id)
  | .collect id c => ∀ result, stateOf s.requests id c.hit = some (.done result) →
    ∃ row ∈ s.requests, row.id = id ∧ row.key = c.key
  | _ => True

theorem Separate.step (h : Separate s) {a : OrgAction engine} (ha : KeepsApart s a) :
    Separate (s.step a) := by
  cases a with
  | look i c =>
    by_cases hidle : s.holds i = .idle
    · exact h.look (ha hidle).1 (ha hidle).2
    · have hsame : s.look i c = s := by
        unfold Org.look
        split
        · next hi => exact absurd hi hidle
        · rfl
      show Separate (s.look i c)
      rw [hsame]
      exact h
  | raise i newId => exact h.raise i newId
  | giveUp i => exact h.giveUp i
  | decide id status reason =>
    exact h.updated (s.toSystem.decide_updated id status reason) (h.claims.decides id status reason)
  | load i id =>
    refine h.updated ?_ (h.claims.load i id)
    rw [System.load_requests]
    exact .refl _
  | claim i => exact h.updated (s.toSystem.claim_updated i) (h.claims.claims h.ids i)
  | execute i tool world => exact h.execute i tool world
  | keep i result => exact h.updated (s.toSystem.keep_updated i result) (h.claims.keeps i result)
  | collect id c => exact h

theorem Separate.notMerged (h : Separate s) : NotMerged s where
  agree i j c c' id hi hj := by
    obtain ⟨row, hrow, hid, hkey⟩ := h.given i c id hi
    obtain ⟨row', hrow', hid', hkey'⟩ := h.given j c' id hj
    obtain rfl := h.unique hrow hrow' (hid.trans hid'.symm)
    exact hkey.symm.trans hkey'
  shared i j c c' id id' hi hj hsame hp hp' := by
    obtain ⟨row, hrow, hid, hkey⟩ := h.given i c id hi
    obtain ⟨row', hrow', hid', hkey'⟩ := h.given j c' id' hj
    obtain ⟨r, hr, hrid, hpending⟩ := hp
    obtain ⟨r', hr', hrid', hpending'⟩ := hp'
    obtain rfl := h.unique hr hrow (hrid.trans hid.symm)
    obtain rfl := h.unique hr' hrow' (hrid'.trans hid'.symm)
    rw [← hid, ← hid']
    exact h.single r hrow r' hrow' hpending hpending' (hkey.trans (hsame.trans hkey'.symm))
  once := h.claims.once
  asked id hid := by
    obtain ⟨row, hrow, rfl, hset⟩ := h.claims.spent id hid
    obtain ⟨i, c, hi⟩ := h.owned row hrow
    obtain ⟨row', hrow', hid', hkey⟩ := h.given i c row.id hi
    obtain rfl := h.unique hrow hrow' hid'.symm
    exact ⟨row, hrow, rfl, h.approved row hrow hset, i, c, hi, hkey.symm⟩

theorem Separate.answersOwn (h : Separate s) {a : OrgAction engine} (ha : KeepsApart s a) :
    AnswersOwn s a := by
  cases a with
  | look j c =>
    intro i c' id hidle hi hsame hp
    obtain ⟨row, hrow, hid, hkey⟩ := h.given i c' id hi
    obtain ⟨r, hr, hrid, hpending⟩ := hp
    obtain rfl := h.unique hr hrow (hrid.trans hid.symm)
    unfold Org.look
    rw [hidle]
    dsimp only
    split
    · next found hfound =>
      -- the one found is pending for this call, and so is the one given before
      obtain ⟨hmem, hfp⟩ := findPending_some hfound
      have hfkey := (ha hidle).1 found hfound
      have hfid : found.id = r.id :=
        h.single found hmem r hrow hfp hpending (hfkey.trans (hsame.symm.trans hkey.symm))
      rw [setHold_self, hfid, hid]
    · next hnone => exact absurd (hkey.trans hsame) (findPending_none hnone hrow hpending)
  | collect id c =>
    intro result _
    obtain ⟨i, c', hi, hsame⟩ := ha
    obtain ⟨row, hrow, hid, hkey⟩ := h.given i c' id hi
    exact ⟨row, hrow, hid, hkey.trans hsame⟩
  | _ => trivial

end

theorem held_calls_kept_apart (engine : Engine) (actions : List (OrgAction engine))
    (h : Steps.Along Org.step KeepsApart {} actions) :
    Steps.Along Org.step (fun s a => NotMerged (s.step a) ∧ AnswersOwn s a) {} actions := by
  refine Steps.along_of_invariant Separate (fun s a hs ha => hs.step ha) ?_ separate_init h
  intro s a hs ha
  exact ⟨(hs.step ha).notMerged, hs.answersOwn ha⟩

/-! ## One call raised twice, two callers merged -/

def transferBy (userId : String) : HeldCall wholeEngine where
  params := [("amount", .json (.num 900))]
  hit := {
    kind := .toolAmount, policyId := "rule", policyName := "", summary := "", toolId := "t"
    toolName := "transfer", argument := "amount", value := some (.finite 900), op := .gt
    amount := 500, paramsHash := paramsHash wholeEngine [("amount", .json (.num 900))] }
  fingerprint := rfl
  context := {}
  call := { caller := { userId := some userId }, gatewayId := none, agentTeamId := none }

def askedTwice : List (OrgAction wholeEngine) :=
  [.look 0 (transferBy "ann"), .raise 0 "r", .look 1 (transferBy "ann"),
    .decide "r" .approved none, .load 0 "r", .claim 0, .execute 0 transferTool { newId := "x" },
    .keep 0 .null, .collect "r" (transferBy "ann")]

theorem asked_twice_kept_apart :
    Steps.Along Org.step KeepsApart {} askedTwice ∧
      Steps.Along Org.step (fun s a => NotMerged (s.step a) ∧ AnswersOwn s a) {} askedTwice := by
  have hapart : Steps.Along Org.step KeepsApart {} askedTwice := by
    refine ⟨?_, trivial, ?_, trivial, trivial, trivial, trivial, trivial, ?_, trivial⟩
    · intro _
      refine ⟨?_, ?_⟩
      · intro row hrow
        cases hrow
      · intro j c' hj
        cases hj
    · intro _
      refine ⟨?_, ?_⟩
      · intro row hrow
        obtain rfl : raised (transferBy "ann") "r" = row := Option.some.inj hrow
        rfl
      · intro j c' hj
        rcases setHold_eq hj with ⟨-, hx⟩ | ⟨hne, hj⟩
        · cases hx
        · rcases setHold_eq hj with ⟨hji, -⟩ | ⟨-, hj⟩
          · exact absurd hji hne
          · cases hj
    · exact ⟨0, transferBy "ann", rfl, rfl⟩
  exact ⟨hapart, held_calls_kept_apart wholeEngine askedTwice hapart⟩

def askedAtOnce : List (OrgAction wholeEngine) :=
  [.look 0 (transferBy "ann"), .look 1 (transferBy "ann"), .raise 0 "r", .raise 1 "q"]

/-- Bob asks for the transfer Ann waits for, and collects it. -/
def askedByAnother : List (OrgAction wholeEngine) :=
  [.look 0 (transferBy "ann"), .raise 0 "r", .look 1 (transferBy "bob"),
    .decide "r" .approved none, .load 0 "r", .claim 0, .execute 0 transferTool { newId := "x" },
    .keep 0 .null, .collect "r" (transferBy "bob")]

/-- Two requests wait for one call, and one request answers two users. -/
theorem held_calls_doubled_and_merged :
    ¬Steps.Along Org.step (fun s a => NotMerged (s.step a) ∧ AnswersOwn s a) {} askedAtOnce ∧
    ¬Steps.Along Org.step (fun s a => NotMerged (s.step a) ∧ AnswersOwn s a) {} askedByAnother ∧
    ¬Steps.Along Org.step AnswersOwn {} askedByAnother := by
  refine ⟨?_, ?_, ?_⟩
  · rintro ⟨-, -, -, ⟨hlast, -⟩, -⟩
    have hsame : "r" = "q" :=
      hlast.shared 0 1 (transferBy "ann") (transferBy "ann") "r" "q" rfl rfl rfl
        ⟨raised (transferBy "ann") "r", mem_cons_self, rfl, rfl⟩
        ⟨raised (transferBy "ann") "q", mem_cons_of_mem _ mem_cons_self, rfl, rfl⟩
    exact absurd hsame (by decide)
  · rintro ⟨-, -, ⟨hmerged, -⟩, -⟩
    have hsame : (transferBy "ann").key = (transferBy "bob").key :=
      hmerged.agree 0 1 (transferBy "ann") (transferBy "bob") "r" rfl rfl
    exact absurd (congrArg CallKey.userId hsame) (by decide)
  · rintro ⟨-, -, -, -, -, -, -, -, hcollect, -⟩
    obtain ⟨row, hrow, -, hkey⟩ := hcollect .null rfl
    obtain rfl := mem_singleton.mp hrow
    exact absurd (congrArg CallKey.userId hkey) (by decide)

end Almyty.Tools
