import Almyty.Tools.ToolExecutor

/-!
# Held calls: `hold`, an approval, `runHeld`

A held call waits as a request with no run. Once a person approves it, `runHeld` makes
the call: it reads the request, claims `resultAt` with a conditional update, hands the
stored parameters to `executeTool` with the approval, and keeps what came back. The event
and a retry may run `runHeld` for one request at the same time, so its steps interleave
with each other, with decisions and with other calls of the tool.

Two things are to be had of it. A request is dispatched at most once: the claim is the
one write that can succeed once, and everything after it belongs to whoever made it
(`Inv`). And the call is made as it was approved; that rests on `executeTool`, which puts
the stored parameters, mapped and filtered already, through the mapping and the plugins
once more. `approved_calls_run_iff` says that a held call runs as approved exactly when
that second pass leaves the fingerprint as it was.
-/

namespace Almyty.Tools

open Almyty.Lib List
open Almyty.Approvals

inductive RunHeld
  | idle
  | loaded (row : HeldRequest)
  | claimed (row : HeldRequest)
  | ran (row : HeldRequest)
  | ended

structure System where
  requests : List HeldRequest := []
  calls : Nat → RunHeld := fun _ => .idle
  dispatches : List (String × Params) := []

inductive Action
  /-- Some caller calls the tool. -/
  | call (world : World) (parameters : Fields) (options : CallOptions)
  | decide (id : String) (status : ApprovalStatus) (reason : Option String)
  /-- `runHeld` reads the request. -/
  | load (i : Nat) (id : String)
  /-- It claims the request. -/
  | claim (i : Nat)
  /-- It calls `executeTool`. -/
  | execute (i : Nat) (world : World)
  /-- It keeps the result. -/
  | keep (i : Nat) (result : Json)

/-- `UPDATE ... WHERE`. -/
def updateRows (requests : List HeldRequest) (p : HeldRequest → Bool)
    (f : HeldRequest → HeldRequest) : List HeldRequest :=
  requests.map fun row => if p row then f row else row

/-- What the claim's `where` asks of a row. -/
def claimable (id : String) (row : HeldRequest) : Bool :=
  row.id = id && row.status = .approved && !row.resultAt

def heldOptions (row : HeldRequest) : CallOptions where
  caller := row.call.caller
  gatewayId := row.call.gatewayId
  agentId := row.agentId
  agentTeamId := some row.call.agentTeamId
  approvedGate := some row.id

def System.setCall (s : System) (i : Nat) (c : RunHeld) : System :=
  { s with calls := fun j => if j = i then c else s.calls j }

def heldOutcome (engine : Engine) (tool : Tool) (world : World) (requests : List HeldRequest)
    (row : HeldRequest) : Outcome × List HeldRequest :=
  executeTool engine tool world requests (.ofFields row.parameters) (heldOptions row)

def System.call (engine : Engine) (tool : Tool) (s : System) (world : World)
    (parameters : Fields) (options : CallOptions) : System :=
  { s with
    requests := (executeTool engine tool world s.requests (.ofFields parameters) options).2 }

/-- A person decides a pending request, or it expires. -/
def System.decide (s : System) (id : String) (status : ApprovalStatus) (reason : Option String) :
    System :=
  let undecided (row : HeldRequest) : Bool := row.id = id && row.status = .pending
  let requests := updateRows s.requests undecided
    fun row => { row with status, decisionReason := reason }
  { s with requests }

/-- `findOne`; a request that is not approved is not run. -/
def System.load (s : System) (i : Nat) (id : String) : System :=
  match s.calls i with
  | .idle =>
    match s.requests.find? (·.id = id) with
    | some row => if row.status = .approved then s.setCall i (.loaded row) else s.setCall i .ended
    | none => s.setCall i .ended
  | _ => s

/-- `resultAt` is claimed before the call is made. -/
def System.claim (s : System) (i : Nat) : System :=
  match s.calls i with
  | .loaded row =>
    -- the read is past by now: the update's own condition decides
    if s.requests.any (claimable row.id) then
      let requests := updateRows s.requests (claimable row.id)
        fun row => { row with resultAt := true }
      { s with requests }.setCall i (.claimed row)
    else s.setCall i .ended
  | _ => s

/-- The call is made. -/
def System.execute (engine : Engine) (tool : Tool) (s : System) (i : Nat) (world : World) :
    System :=
  match s.calls i with
  | .claimed row =>
    -- a call that is not covered may be held a second time
    let requests := (heldOutcome engine tool world s.requests row).2
    match (heldOutcome engine tool world s.requests row).1 with
    | .dispatched params =>
      { s with requests, dispatches := s.dispatches ++ [(row.id, params)] }.setCall i (.ran row)
    | _ => { s with requests }.setCall i (.ran row)
  | _ => s

def System.keep (s : System) (i : Nat) (result : Json) : System :=
  match s.calls i with
  | .ran row =>
    let requests := updateRows s.requests (·.id = row.id)
      fun row => { row with result := some result }
    { s with requests }.setCall i .ended
  | _ => s

def step (engine : Engine) (tool : Tool) (s : System) : Action → System
  | .call world parameters options => s.call engine tool world parameters options
  | .decide id status reason => s.decide id status reason
  | .load i id => s.load i id
  | .claim i => s.claim i
  | .execute i world => s.execute engine tool i world
  | .keep i result => s.keep i result

/-! ## The requests over a run -/

/-- What no step takes from a request: its hit, its approval and its claim. -/
def Extends (requests requests' : List HeldRequest) : Prop :=
  ∀ row ∈ requests, ∃ row' ∈ requests', row'.id = row.id ∧ row'.hit = row.hit ∧
    (row.status = .approved → row'.status = .approved) ∧
    (row.resultAt = true → row'.resultAt = true)

theorem Extends.refl (requests : List HeldRequest) : Extends requests requests :=
  fun row hrow => ⟨row, hrow, rfl, rfl, id, id⟩

theorem extends_append (requests added : List HeldRequest) : Extends requests (requests ++ added) :=
  fun row hrow => ⟨row, mem_append_left _ hrow, rfl, rfl, id, id⟩

variable {requests : List HeldRequest}

theorem extends_updateRows {p : HeldRequest → Bool} {f : HeldRequest → HeldRequest}
    (h : ∀ row, p row = true → (f row).id = row.id ∧ (f row).hit = row.hit ∧
      (row.status = .approved → (f row).status = .approved) ∧
      (row.resultAt = true → (f row).resultAt = true)) :
    Extends requests (updateRows requests p f) := by
  intro row hrow
  refine ⟨if p row then f row else row, mem_map.mpr ⟨row, hrow, rfl⟩, ?_⟩
  split
  · next hp => exact h row hp
  · exact ⟨rfl, rfl, id, id⟩

theorem updateRows_ids {p : HeldRequest → Bool} {f : HeldRequest → HeldRequest}
    (h : ∀ row, (f row).id = row.id) :
    (updateRows requests p f).map (·.id) = requests.map (·.id) := by
  rw [updateRows, map_map]
  refine map_congr_left fun row _ => ?_
  show (if p row then f row else row).id = row.id
  split
  · exact h row
  · rfl

structure Requests (engine : Engine) (tool : Tool) (requests : List HeldRequest) : Prop where
  ids : (requests.map (·.id)).Nodup
  tools : ∀ row ∈ requests, row.hit.toolId = tool.id
  fingerprints : ∀ row ∈ requests, row.hit.paramsHash = paramsHash engine (.ofFields row.parameters)

section

variable {engine : Engine} {tool : Tool} {requests : List HeldRequest}

theorem Requests.unique (h : Requests engine tool requests) {row row' : HeldRequest}
    (hrow : row ∈ requests) (hrow' : row' ∈ requests) (hid : row.id = row'.id) : row = row' :=
  inj_on_of_nodup_map h.ids hrow hrow' hid

theorem Requests.append (h : Requests engine tool requests) {row : HeldRequest}
    (hnew : Raised engine tool requests row) : Requests engine tool (requests ++ [row]) where
  ids := by
    rw [map_append, map_cons, map_nil, nodup_append]
    refine ⟨h.ids, nodup_singleton _, ?_⟩
    intro a ha b hb
    obtain ⟨r, hr, rfl⟩ := mem_map.mp ha
    rw [mem_singleton.mp hb]
    exact hnew.fresh r hr
  tools r hr := by
    rcases mem_append.mp hr with hr | hr
    · exact h.tools r hr
    · rw [mem_singleton.mp hr]
      exact hnew.tool
  fingerprints r hr := by
    rcases mem_append.mp hr with hr | hr
    · exact h.fingerprints r hr
    · rw [mem_singleton.mp hr]
      exact hnew.fingerprint

theorem Requests.updateRows (h : Requests engine tool requests) {p : HeldRequest → Bool}
    {f : HeldRequest → HeldRequest}
    (hf : ∀ row, (f row).id = row.id ∧ (f row).hit = row.hit ∧
      (f row).parameters = row.parameters) :
    Requests engine tool (updateRows requests p f) where
  ids := by
    rw [updateRows_ids fun row => (hf row).1]
    exact h.ids
  tools r hr := by
    obtain ⟨row, hrow, rfl⟩ := mem_map.mp hr
    split
    · rw [(hf row).2.1]
      exact h.tools row hrow
    · exact h.tools row hrow
  fingerprints r hr := by
    obtain ⟨row, hrow, rfl⟩ := mem_map.mp hr
    split
    · rw [(hf row).2.1, (hf row).2.2]
      exact h.fingerprints row hrow
    · exact h.fingerprints row hrow

theorem Requests.executeTool (h : Requests engine tool requests) (world : World)
    (params : Params) (options : CallOptions) :
    Requests engine tool (executeTool engine tool world requests params options).2 ∧
      Extends requests (Tools.executeTool engine tool world requests params options).2 := by
  rcases executeTool_requests engine tool world requests params options with heq | ⟨row, hnew, heq⟩
  · rw [heq]
    exact ⟨h, .refl _⟩
  · rw [heq]
    exact ⟨h.append hnew, extends_append _ _⟩

end

/-! ## At most once -/

def RunHeld.row? : RunHeld → Option HeldRequest
  | .loaded row | .claimed row | .ran row => some row
  | .idle | .ended => none

def Approved (requests : List HeldRequest) (row : HeldRequest) : Prop :=
  ∃ r ∈ requests, r.id = row.id ∧ r.hit = row.hit ∧ r.status = .approved

def Claimed (requests : List HeldRequest) (id : String) : Prop :=
  ∃ r ∈ requests, r.id = id ∧ r.resultAt = true

theorem Approved.mono {requests' : List HeldRequest} {row : HeldRequest} (h : Approved requests row)
    (hext : Extends requests requests') : Approved requests' row := by
  obtain ⟨r, hr, hid, hhit, hstatus⟩ := h
  obtain ⟨r', hr', hid', hhit', hstatus', -⟩ := hext r hr
  exact ⟨r', hr', hid'.trans hid, hhit'.trans hhit, hstatus' hstatus⟩

theorem Claimed.mono {requests' : List HeldRequest} {id : String} (h : Claimed requests id)
    (hext : Extends requests requests') : Claimed requests' id := by
  obtain ⟨r, hr, hid, hclaimed⟩ := h
  obtain ⟨r', hr', hid', -, -, hclaimed'⟩ := hext r hr
  exact ⟨r', hr', hid'.trans hid, hclaimed' hclaimed⟩

structure Claims (s : System) : Prop where
  claimed : ∀ i row, s.calls i = .claimed row → Claimed s.requests row.id
  alone : ∀ i j row row', s.calls i = .claimed row → s.calls j = .claimed row' →
    row.id = row'.id → i = j
  unspent : ∀ i row, s.calls i = .claimed row → row.id ∉ s.dispatches.map Prod.fst
  spent : ∀ id ∈ s.dispatches.map Prod.fst, Claimed s.requests id
  once : (s.dispatches.map Prod.fst).Nodup

theorem claims_init : Claims {} where
  claimed _ _ h := by cases h
  alone _ _ _ _ h := by cases h
  unspent _ _ h := by cases h
  spent _ h := by cases h
  once := nodup_nil

section

variable {s : System}

theorem setCall_eq {i j : Nat} {c c' : RunHeld} (h : (s.setCall i c).calls j = c') :
    j = i ∧ c = c' ∨ j ≠ i ∧ s.calls j = c' := by
  by_cases hj : j = i
  · exact .inl ⟨hj, (if_pos hj).symm.trans h⟩
  · exact .inr ⟨hj, (if_neg hj).symm.trans h⟩

variable {requests : List HeldRequest}

theorem Claims.withRequests (h : Claims s) (hext : Extends s.requests requests) :
    Claims { s with requests } where
  claimed i row hrow := (h.claimed i row hrow).mono hext
  alone := h.alone
  unspent := h.unspent
  spent id hid := (h.spent id hid).mono hext
  once := h.once

theorem Claims.move (h : Claims s) (i : Nat) {c : RunHeld} (hclaim : ∀ row, c ≠ .claimed row) :
    Claims (s.setCall i c) where
  claimed j row hrow := by
    rcases setCall_eq hrow with ⟨-, hc⟩ | ⟨-, hc⟩
    · exact absurd hc (hclaim row)
    · exact h.claimed j row hc
  alone j k row row' hj hk hid := by
    rcases setCall_eq hj with ⟨-, hc⟩ | ⟨-, hj⟩
    · exact absurd hc (hclaim row)
    rcases setCall_eq hk with ⟨-, hc⟩ | ⟨-, hk⟩
    · exact absurd hc (hclaim row')
    exact h.alone j k row row' hj hk hid
  unspent j row hrow := by
    rcases setCall_eq hrow with ⟨-, hc⟩ | ⟨-, hc⟩
    · exact absurd hc (hclaim row)
    · exact h.unspent j row hc
  spent := h.spent
  once := h.once

theorem Claims.claim (h : Claims s) {i : Nat} {row : HeldRequest}
    (hfree : ¬Claimed s.requests row.id) (hext : Extends s.requests requests)
    (hclaimed : Claimed requests row.id) :
    Claims ({ s with requests }.setCall i (.claimed row)) := by
  have hs := h.withRequests hext
  refine ⟨?_, ?_, ?_, hs.spent, h.once⟩
  · intro j r hr
    rcases setCall_eq hr with ⟨-, hc⟩ | ⟨-, hc⟩
    · obtain rfl := RunHeld.claimed.inj hc
      exact hclaimed
    · exact hs.claimed j r hc
  · -- whoever else had a claim on this request had it before, which the free row denies
    intro j k r r' hj hk hid
    rcases setCall_eq hj with ⟨hji, hc⟩ | ⟨-, hj⟩
    · obtain rfl := RunHeld.claimed.inj hc
      rcases setCall_eq hk with ⟨hki, -⟩ | ⟨-, hk⟩
      · rw [hji, hki]
      · exact absurd (hid ▸ h.claimed k r' hk) hfree
    · rcases setCall_eq hk with ⟨-, hc⟩ | ⟨-, hk⟩
      · obtain rfl := RunHeld.claimed.inj hc
        exact absurd (hid ▸ h.claimed j r hj) hfree
      · exact h.alone j k r r' hj hk hid
  · intro j r hr
    rcases setCall_eq hr with ⟨-, hc⟩ | ⟨-, hc⟩
    · obtain rfl := RunHeld.claimed.inj hc
      exact fun hspent => hfree (h.spent _ hspent)
    · exact h.unspent j r hc

theorem Claims.spend (h : Claims s) {i : Nat} {row : HeldRequest}
    (hrow : s.calls i = .claimed row) (params : Params) :
    Claims ({ s with dispatches := s.dispatches ++ [(row.id, params)] }.setCall i (.ran row)) := by
  have hmoved : Claims (s.setCall i (.ran row)) := by
    refine h.move i ?_
    intro r hr
    cases hr
  have hids : (s.dispatches ++ [(row.id, params)]).map Prod.fst
      = s.dispatches.map Prod.fst ++ [row.id] := map_append
  refine ⟨hmoved.claimed, hmoved.alone, ?_, ?_, ?_⟩
  · intro j r hr hspent
    rcases setCall_eq hr with ⟨-, hc⟩ | ⟨hj, hr⟩
    · cases hc
    rcases mem_append.mp (hids ▸ hspent) with hspent | hspent
    · exact h.unspent j r hr hspent
    · exact hj (h.alone j i r row hr hrow (mem_singleton.mp hspent))
  · intro id hid
    rcases mem_append.mp (hids ▸ hid) with hid | hid
    · exact h.spent id hid
    · rw [mem_singleton.mp hid]
      exact h.claimed i row hrow
  · show ((s.dispatches ++ [(row.id, params)]).map Prod.fst).Nodup
    rw [hids, nodup_append]
    refine ⟨h.once, nodup_singleton _, ?_⟩
    intro a ha b hb hab
    rw [mem_singleton.mp hb] at hab
    exact h.unspent i row hrow (hab ▸ ha)

theorem claim_requests {id : String} (hids : (requests.map (·.id)).Nodup)
    (hany : requests.any (claimable id) = true) :
    ¬Claimed requests id ∧
      Claimed (updateRows requests (claimable id) fun row => { row with resultAt := true }) id := by
  obtain ⟨r, hr, hclaimable⟩ := any_eq_true.mp hany
  have hopen := hclaimable
  simp only [claimable, Bool.and_eq_true, decide_eq_true_eq, Bool.not_eq_true'] at hopen
  obtain ⟨⟨hid, -⟩, hunset⟩ := hopen
  constructor
  · rintro ⟨r', hr', hid', hset⟩
    obtain rfl := inj_on_of_nodup_map hids hr hr' (hid.trans hid'.symm)
    rw [hunset] at hset
    cases hset
  · exact ⟨_, mem_map.mpr ⟨r, hr, if_pos hclaimable⟩, hid, rfl⟩

end

structure Inv (engine : Engine) (tool : Tool) (s : System) : Prop where
  requests : Requests engine tool s.requests
  read : ∀ i row, (s.calls i).row? = some row → Approved s.requests row ∧
    row.hit.paramsHash = paramsHash engine (.ofFields row.parameters)
  claimed : ∀ i row, s.calls i = .claimed row → Claimed s.requests row.id
  alone : ∀ i j row row', s.calls i = .claimed row → s.calls j = .claimed row' →
    row.id = row'.id → i = j
  unspent : ∀ i row, s.calls i = .claimed row → row.id ∉ s.dispatches.map Prod.fst
  spent : ∀ id ∈ s.dispatches.map Prod.fst, Claimed s.requests id
  once : (s.dispatches.map Prod.fst).Nodup

section

variable {engine : Engine} {tool : Tool} {s : System}

theorem Inv.toClaims (h : Inv engine tool s) : Claims s :=
  ⟨h.claimed, h.alone, h.unspent, h.spent, h.once⟩

theorem Claims.toInv (h : Claims s) (hrequests : Requests engine tool s.requests)
    (hread : ∀ i row, (s.calls i).row? = some row → Approved s.requests row ∧
      row.hit.paramsHash = paramsHash engine (.ofFields row.parameters)) : Inv engine tool s :=
  ⟨hrequests, hread, h.claimed, h.alone, h.unspent, h.spent, h.once⟩

theorem inv_init (engine : Engine) (tool : Tool) : Inv engine tool {} := by
  refine claims_init.toInv ⟨nodup_nil, ?_, ?_⟩ ?_
  · intro _ h
    cases h
  · intro _ h
    cases h
  · intro _ _ h
    cases h

theorem Inv.withRequests (h : Inv engine tool s) {requests : List HeldRequest}
    (hrequests : Requests engine tool requests) (hext : Extends s.requests requests) :
    Inv engine tool { s with requests } :=
  (h.toClaims.withRequests hext).toInv hrequests
    fun i row hrow => ⟨(h.read i row hrow).1.mono hext, (h.read i row hrow).2⟩

theorem Inv.read_setCall (h : Inv engine tool s) {i : Nat} {c : RunHeld}
    (hread : ∀ row, c.row? = some row → Approved s.requests row ∧
      row.hit.paramsHash = paramsHash engine (.ofFields row.parameters)) (j : Nat)
    (row : HeldRequest) (hrow : ((s.setCall i c).calls j).row? = some row) :
    Approved s.requests row ∧ row.hit.paramsHash = paramsHash engine (.ofFields row.parameters) := by
  rcases setCall_eq (s := s) (i := i) (c := c) (j := j) rfl with ⟨-, hc⟩ | ⟨-, hc⟩
  · exact hread row (hc ▸ hrow)
  · exact h.read j row (hc ▸ hrow)

theorem Inv.move (h : Inv engine tool s) (i : Nat) {c : RunHeld}
    (hclaim : ∀ row, c ≠ .claimed row)
    (hread : ∀ row, c.row? = some row → Approved s.requests row ∧
      row.hit.paramsHash = paramsHash engine (.ofFields row.parameters)) :
    Inv engine tool (s.setCall i c) :=
  (h.toClaims.move i hclaim).toInv h.requests (h.read_setCall hread)

theorem Inv.read_of (h : Inv engine tool s) {i : Nat} {row : HeldRequest}
    (hrow : (s.calls i).row? = some row) {c : RunHeld} (hc : c.row? = some row)
    (r : HeldRequest) (hr : c.row? = some r) :
    Approved s.requests r ∧ r.hit.paramsHash = paramsHash engine (.ofFields r.parameters) := by
  obtain rfl := Option.some.inj (hc.symm.trans hr)
  exact h.read i row hrow

theorem Inv.spend (h : Inv engine tool s) {i : Nat} {row : HeldRequest}
    (hrow : s.calls i = .claimed row) (params : Params) :
    Inv engine tool
      ({ s with dispatches := s.dispatches ++ [(row.id, params)] }.setCall i (.ran row)) :=
  (h.toClaims.spend hrow params).toInv h.requests
    (h.read_setCall (h.read_of (by rw [hrow]; rfl) rfl))

theorem Inv.ends (h : Inv engine tool s) (i : Nat) : Inv engine tool (s.setCall i .ended) := by
  refine h.move i ?_ ?_ <;>
  · intro r hr
    cases hr

theorem Inv.runs (h : Inv engine tool s) {i : Nat} {row : HeldRequest}
    (hrow : s.calls i = .claimed row) : Inv engine tool (s.setCall i (.ran row)) := by
  refine h.move i ?_ (h.read_of (by rw [hrow]; rfl) rfl)
  intro r hr
  cases hr

theorem Inv.load (h : Inv engine tool s) (i : Nat) (id : String) :
    Inv engine tool (s.load i id) := by
  unfold System.load
  split
  swap
  · exact h
  split
  · next row hfind =>
    have hmem : row ∈ s.requests := List.mem_of_find?_eq_some hfind
    split
    · next hstatus =>
      refine h.move i ?_ ?_
      · intro r hr
        cases hr
      · intro r hr
        obtain rfl := Option.some.inj hr
        exact ⟨⟨row, hmem, rfl, rfl, hstatus⟩, h.requests.fingerprints row hmem⟩
    · exact h.ends i
  · exact h.ends i

theorem Inv.claims (h : Inv engine tool s) (i : Nat) : Inv engine tool (s.claim i) := by
  unfold System.claim
  split
  · next row hrow =>
    split
    · next hany =>
      obtain ⟨hfree, hclaimed⟩ := claim_requests h.requests.ids hany
      have hrequests := h.requests.updateRows (p := claimable row.id)
        (f := fun row => { row with resultAt := true }) fun _ => ⟨rfl, rfl, rfl⟩
      have hext : Extends s.requests (Tools.updateRows s.requests (claimable row.id)
          fun row => { row with resultAt := true }) :=
        extends_updateRows fun _ _ => ⟨rfl, rfl, fun hs => hs, fun _ => rfl⟩
      have hs := h.withRequests hrequests hext
      exact (h.toClaims.claim hfree hext hclaimed).toInv hrequests
        (hs.read_setCall (@Inv.read_of _ _ _ hs i row (by dsimp only; rw [hrow]; rfl) _ rfl))
    · exact h.ends i
  · exact h

theorem Inv.executes (h : Inv engine tool s) (i : Nat) (world : World) :
    Inv engine tool (s.execute engine tool i world) := by
  unfold System.execute
  split
  · next row hrow =>
    obtain ⟨hrequests, hext⟩ :=
      h.requests.executeTool world (.ofFields row.parameters) (heldOptions row)
    have hs := h.withRequests hrequests hext
    dsimp only
    split
    · exact hs.spend hrow _
    · exact hs.runs hrow
  · exact h

theorem Inv.keeps (h : Inv engine tool s) (i : Nat) (result : Json) :
    Inv engine tool (s.keep i result) := by
  unfold System.keep
  split
  · next row hrow =>
    refine Inv.ends ?_ i
    refine h.withRequests (h.requests.updateRows fun _ => ⟨rfl, rfl, rfl⟩) ?_
    exact extends_updateRows fun _ _ => ⟨rfl, rfl, fun hs => hs, fun hset => hset⟩
  · exact h

theorem Inv.step (h : Inv engine tool s) (a : Action) : Inv engine tool (step engine tool s a) := by
  cases a with
  | call world parameters options =>
    obtain ⟨hrequests, hext⟩ := h.requests.executeTool world (.ofFields parameters) options
    exact h.withRequests hrequests hext
  | decide id status reason =>
    refine h.withRequests (h.requests.updateRows fun _ => ⟨rfl, rfl, rfl⟩) ?_
    refine extends_updateRows fun row hp => ⟨rfl, rfl, fun happroved => ?_, fun hset => hset⟩
    -- only a pending request is decided
    simp [happroved] at hp
  | load i id => exact h.load i id
  | claim i => exact h.claims i
  | execute i world => exact h.executes i world
  | keep i result => exact h.keeps i result

end

/-! ## As it was approved -/

def RunsAsApproved (engine : Engine) (tool : Tool) (s : System) : Action → Prop
  | .execute i world => ∀ row, s.calls i = .claimed row →
    ∃ params, (heldOutcome engine tool world s.requests row).1 = .dispatched params ∧
      paramsHash engine params = row.hit.paramsHash
  | _ => True

/-- The stored parameters, put through the mapping, the checks and the plugins once more,
keep their fingerprint, and nothing but the gate stands before the dispatch. -/
def KeepsStored (engine : Engine) (tool : Tool) (s : System) : Action → Prop
  | .execute i world => ∀ row, s.calls i = .claimed row → world.refuses (heldOptions row) = none ∧
    ∃ params, prepare tool world (heldOptions row)
        (takeApprovalId (.ofFields row.parameters)).2 = .ok params ∧
      paramsHash engine params = paramsHash engine (.ofFields row.parameters) ∧
      world.proceeds (heldOptions row) params = true
  | _ => True

theorem approved_of_hash {engine : Engine} {tool : Tool} {row : HeldRequest} {hit : ApprovalGateHit}
    (h : Requests engine tool requests) (hrow : Approved requests row)
    (htool : hit.toolId = tool.id) (hhash : hit.paramsHash = row.hit.paramsHash) :
    approved requests row.id hit = true := by
  obtain ⟨r, hr, hid, hhit, hstatus⟩ := hrow
  have hfind : requests.find? (·.id = row.id) = some r := by
    cases hfound : requests.find? (·.id = row.id) with
    | none =>
      have := List.find?_eq_none.mp hfound r hr
      exact absurd (decide_eq_true hid) this
    | some r' =>
      have hid' : r'.id = row.id := by simpa using List.find?_some hfound
      rw [h.unique (List.mem_of_find?_eq_some hfound) hr (hid'.trans hid.symm)]
  have htool' : r.hit.toolId = hit.toolId := (h.tools r hr).trans htool.symm
  have hhash' : r.hit.paramsHash = hit.paramsHash := hhit ▸ hhash.symm
  simp only [approved, hfind, hstatus, htool', hhash', decide_true, Bool.and_self]

theorem runsAsApproved_iff {engine : Engine} {tool : Tool} {s : System}
    (h : Inv engine tool s) (a : Action) :
    RunsAsApproved engine tool s a ↔ KeepsStored engine tool s a := by
  cases a with
  | execute i world =>
    refine forall_congr' fun row => forall_congr' fun hrow => ?_
    obtain ⟨happroved, hhash⟩ := h.read i row (by rw [hrow]; rfl)
    constructor
    · rintro ⟨params, hdispatched, hparams⟩
      obtain ⟨hrefuses, hprepare, -, hproceeds⟩ := executeTool_dispatched_iff.mp hdispatched
      exact ⟨hrefuses, params, hprepare, hparams.trans hhash, hproceeds⟩
    · rintro ⟨hrefuses, params, hprepare, hparams, hproceeds⟩
      refine ⟨params, executeTool_dispatched_iff.mpr ⟨hrefuses, hprepare, ?_, hproceeds⟩,
        hparams.trans hhash.symm⟩
      -- a hit on parameters of the approved fingerprint is covered
      intro hit hcheck
      obtain ⟨htool, hhit⟩ := check_hit hcheck
      exact approved_of_hash h.requests happroved htool
        (hhit.trans (hparams.trans hhash.symm))
  | _ => exact Iff.rfl

theorem approved_calls_run_iff (engine : Engine) (tool : Tool) (actions : List Action) :
    (Steps.Along (step engine tool) (RunsAsApproved engine tool) {} actions ↔
      Steps.Along (step engine tool) (KeepsStored engine tool) {} actions) ∧
    ((Steps.run (step engine tool) {} actions).dispatches.map Prod.fst).Nodup := by
  have hstep : ∀ s a, Inv engine tool s → KeepsStored engine tool s a →
      Inv engine tool (step engine tool s a) := fun s a h _ => h.step a
  refine ⟨Steps.along_iff_of_invariant _ hstep (fun s a h => runsAsApproved_iff h a)
    (inv_init engine tool), ?_⟩
  have hall : Steps.Along (step engine tool) (fun _ _ => True) {} actions := by
    refine Steps.along_iff.mpr ?_
    intros
    trivial
  exact (Steps.run_invariant (Inv engine tool) (fun s a h _ => h.step a) (inv_init engine tool)
    hall).once

/-! ## A mapping that maps its own target -/

def transferTool : Tool := { id := "t", name := "transfer", readableName := "Transfer" }

def transferRule : ApprovalPolicy where
  id := "rule"
  name := ""
  steps := []
  trigger := some ⟨"t", "amount", .gt, 500⟩
  stored := by decide

/-- A gateway that takes `limit` for the tool's `amount` and `amount` for its `total`, with
the rule on `amount`. -/
def transferWorld : World where
  rows := { policies := [transferRule] }
  inputMapping := fun _ => some [("amount", "total"), ("limit", "amount")]
  newId := "r"

def transferRun : List Action :=
  [.call transferWorld [("limit", .num 900)] { gatewayId := some "g" },
    .decide "r" .approved none, .load 0 "r", .claim 0, .execute 0 transferWorld]

/-- An amount of nine hundred is approved, and a total of nine hundred is sent. -/
theorem approved_call_mapped_again :
    (Steps.run (step wholeEngine transferTool) {} transferRun).dispatches
        = [("r", [("total", .json (.num 900))])] ∧
      ¬Steps.Along (step wholeEngine transferTool) (RunsAsApproved wholeEngine transferTool) {}
        transferRun := by
  refine ⟨rfl, ?_⟩
  rintro ⟨-, -, -, -, hexecute, -⟩
  obtain ⟨params, hdispatched, hhash⟩ := hexecute _ rfl
  have hparams : params = [("total", .json (.num 900))] := (Outcome.dispatched.inj hdispatched).symm
  subst hparams
  exact absurd hhash (by decide)

end Almyty.Tools
