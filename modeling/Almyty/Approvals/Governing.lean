import Almyty.Approvals.Decisions

/-!
# The policy of a request an agent makes

`request_approval` hands the model's `payload` argument to `ApprovalsService.create` as it is. The
platform keeps what it knows about a request in the same object: `_gate` on the request of a held
tool call, with the policy whose rule held it, and `_policy` on a request under a policy.
`resolveGoverningPolicy` takes the policy `_gate` names, and without a policy the payload is stored
unchanged, so that a `_policy` of the model's own is what the approvals are scored by.

`agent_cannot_choose_iff` says for which calls the policy recorded is the one that governs, whatever
the policies of the organization are.

Mirroring notes:
- The organization is licensed for approval policies and the hook answers; unlicensed, or when the
  hook throws, `create` records no policy.
- The request is new: a repeated tool call gives back the row it has.
-/

namespace Almyty.Approvals

open Almyty.Lib List

structure ApprovalCall where
  agentId : String
  runId : String
  teamId : Option String := none
  toolCallId : Option String := none
  reason : Json := .null
  /-- `parameters.payload ?? null`. -/
  payload : Json := .null

def ApprovalCall.reasonText (call : ApprovalCall) : Json :=
  if call.reason.truthy then call.reason else .str "agent requested approval"

def toolNameOf (payload : Json) : Json :=
  match payloadAt payload "toolName" with
  | some (.str name) => .str name
  | _ => .null

/-- `input.payload ?? \x7b\x7d`. -/
def orEmpty : Json → Json
  | .null => .obj []
  | payload => payload

/-- The context `resolveGoverningPolicy` asks the hook with. -/
def ApprovalCall.context (call : ApprovalCall) : Fields :=
  [("reason", call.reasonText), ("agentId", .str call.agentId), ("runId", .str call.runId),
    ("toolCallId", textOrNull call.toolCallId), ("toolName", toolNameOf call.payload),
    ("teamId", textOrNull call.teamId), ("payload", orEmpty call.payload),
    ("policyId", (payloadAt ((payloadAt call.payload "_gate").getD .null) "policyId").getD .null)]

section

variable (coerced : ConditionOp → Rat → Json → Bool)

def savedPayload (policies : List ApprovalPolicy) (call : ApprovalCall)
    (initialProgress : Option PolicyProgress) : Json :=
  match resolvePolicy coerced policies call.context with
  | some policy =>
    .obj (Assoc.put (orEmpty call.payload).spread "_policy"
      (.obj ([("policyId", .str policy.id), ("policyName", .str policy.name), ("approvals", .arr [])]
        ++ match initialProgress with
          | some p => [("progress", progressJson p)]
          | none => [])))
  | none => call.payload

def recordedPolicy (payload : Json) : Option Json :=
  (payloadAt (policyState payload) "policyId").filter Json.truthy

def RecordedRight (policies : List ApprovalPolicy) (call : ApprovalCall)
    (initialProgress : Option PolicyProgress) : Prop :=
  match recordedPolicy (savedPayload coerced policies call initialProgress) with
  | some id => ∃ p, id = .str p.id ∧ Governs coerced policies call.context p
  | none => ∀ q ∈ policies, eligible coerced call.context q = false

/-- The call with the reserved keys taken out of its payload. -/
def ApprovalCall.stripped (call : ApprovalCall) : ApprovalCall :=
  { call with
    payload :=
      match call.payload with
      | .obj fields => .obj (fields.filter fun e => e.1 ≠ "_gate" && e.1 ≠ "_policy")
      | payload => payload }

/-- Whatever the policies are: the one recorded governs, and the reserved keys make no
difference to the one resolved. -/
def AgentCannotChoose (call : ApprovalCall) : Prop :=
  ∀ (policies : List ApprovalPolicy) (initialProgress : Option PolicyProgress),
    RecordedRight coerced policies call initialProgress ∧
      resolvePolicy coerced policies call.context
        = resolvePolicy coerced policies call.stripped.context

/-! ## Reading the reserved keys -/

def Reserved (key : String) : Prop := key = "_gate" ∨ key = "_policy"

instance (key : String) : Decidable (Reserved key) := inferInstanceAs (Decidable (_ ∨ _))

variable {key : String}

theorem Reserved.readPath (h : Reserved key) (fields : Fields) :
    Js.readPath (.obj fields) key
      = match fields.lookup key with
        | some value => .json value
        | none => .undefined := by
  have hparts : Js.dotParts key = [key] :=
    Js.dotParts_of_key (by rcases h with rfl | rfl <;> decide)
  have hget : Js.readPath (.obj fields) key = Js.At.get (.json (.obj fields)) key := by
    rw [Js.readPath, hparts, foldl_cons, foldl_nil]
  have hinherited : Js.inherited key = .undefined := by rcases h with rfl | rfl <;> decide
  cases hl : fields.lookup key with
  | some value => simp only [hget, Js.At.get, hl]
  | none => simp only [hget, Js.At.get, hl, hinherited]

theorem Reserved.readPath_arr (h : Reserved key) (items : List Json) :
    Js.readPath (.arr items) key = .undefined := by
  have hparts : Js.dotParts key = [key] :=
    Js.dotParts_of_key (by rcases h with rfl | rfl <;> decide)
  have hindex : Js.arrayIndex key = none := by rcases h with rfl | rfl <;> decide
  have hname : key ≠ "length" ∧ key ≠ "__proto__" ∧ key ∉ Js.arrayMethods ∧
      Js.inherited key = .undefined := by rcases h with rfl | rfl <;> decide
  obtain ⟨hlength, hproto, hmethod, hinherited⟩ := hname
  rw [Js.readPath, hparts, foldl_cons, foldl_nil, Js.At.get, if_neg hlength, hindex]
  simp only [if_neg hproto, if_neg hmethod, hinherited]

theorem Reserved.resolve (h : Reserved key) (call : ApprovalCall) :
    resolve key call.context
      = match payloadAt call.payload key with
        | some value => .json value
        | none => .undefined := by
  have hctx : call.context.lookup key = none := by rcases h with rfl | rfl <;> rfl
  have hpayload : call.context.lookup "payload" = some (orEmpty call.payload) := rfl
  have hprefix : ¬key.toList.take 8 = "payload.".toList := by rcases h with rfl | rfl <;> decide
  rw [Approvals.resolve, h.readPath, hctx, hpayload]
  cases hp : call.payload with
  | obj | null => simp only [orEmpty, if_neg hprefix, h.readPath, payloadAt, Json.fieldsOrEmpty]
  | arr items =>
    simp only [orEmpty, if_neg hprefix, h.readPath_arr, payloadAt, Json.fieldsOrEmpty]
    rfl
  | _ => rfl

theorem payloadAt_stripped (h : Reserved key) (call : ApprovalCall) :
    payloadAt call.stripped.payload key = none := by
  cases hp : call.payload with
  | obj fields =>
    simp only [ApprovalCall.stripped, hp, payloadAt, Json.fieldsOrEmpty]
    rw [Assoc.lookup_eq_none_iff]
    intro hin
    obtain ⟨e, he, hkey⟩ := mem_map.mp hin
    have hkept := (mem_filter.mp he).2
    rcases h with rfl | rfl <;> simp [hkey] at hkept
  | _ => simp only [ApprovalCall.stripped, hp, payloadAt, Json.fieldsOrEmpty]; rfl

variable {call : ApprovalCall}

theorem stripped_eq_self (h : ∀ key, Reserved key → payloadAt call.payload key = none) :
    call.stripped = call := by
  cases hp : call.payload with
  | obj fields =>
    have hkept : fields.filter (fun e => e.1 ≠ "_gate" && e.1 ≠ "_policy") = fields := by
      refine filter_eq_self.mpr fun e he => ?_
      have hin : e.1 ∈ Assoc.keys fields := mem_map_of_mem he
      have hnot : ∀ key, Reserved key → e.1 ≠ key := by
        rintro key hkey rfl
        have hnone := h _ hkey
        rw [hp] at hnone
        exact (Assoc.lookup_eq_none_iff fields e.1).mp hnone hin
      simp [hnot "_gate" (Or.inl rfl), hnot "_policy" (Or.inr rfl)]
    rw [ApprovalCall.stripped, hp]
    simp only [hkept, ← hp]
  | _ => rw [ApprovalCall.stripped, hp]; simp only [← hp]

/-! ## Who chooses the policy -/

theorem resolvePolicy_ungated (h : payloadAt call.payload "_gate" = none)
    (policies : List ApprovalPolicy) :
    resolvePolicy coerced policies call.context
      = highestEligible coerced policies call.context := by
  have hid : call.context.lookup "policyId" = some .null := by
    show some ((payloadAt ((payloadAt call.payload "_gate").getD .null) "policyId").getD .null) = _
    rw [h]
    rfl
  rw [resolvePolicy, hid]

theorem recordedPolicy_resolved {policies : List ApprovalPolicy} {p : ApprovalPolicy}
    (h : resolvePolicy coerced policies call.context = some p)
    (initialProgress : Option PolicyProgress) :
    recordedPolicy (savedPayload coerced policies call initialProgress) = some (.str p.id) := by
  have hid : Json.truthy (.str p.id) = true := by simp [Json.truthy, p.stored]
  unfold savedPayload recordedPolicy policyState
  rw [h]
  simp only [payloadAt, Json.fieldsOrEmpty, Assoc.lookup_put]
  simp [hid]

theorem cannot_choose_unreserved (h : ∀ key, Reserved key → payloadAt call.payload key = none) :
    AgentCannotChoose coerced call := by
  intro policies initialProgress
  refine ⟨?_, by rw [stripped_eq_self h]⟩
  have hresolve := resolvePolicy_ungated coerced (h "_gate" (Or.inl rfl)) policies
  have hspec := highestEligible_spec coerced policies call.context
  unfold RecordedRight
  cases hp : highestEligible coerced policies call.context with
  | some p =>
    rw [hp] at hspec hresolve
    rw [recordedPolicy_resolved coerced hresolve]
    exact ⟨p, rfl, hspec⟩
  | none =>
    rw [hp] at hspec hresolve
    have hsaved : recordedPolicy (savedPayload coerced policies call initialProgress) = none := by
      unfold savedPayload recordedPolicy policyState
      rw [hresolve]
      simp only [h "_policy" (Or.inr rfl)]
      rfl
    rw [hsaved]
    exact hspec

def keyPolicy (key : String) (id : String) (stored : id ≠ "") : ApprovalPolicy :=
  { id, name := key, steps := [], match' := [⟨key, .neq, none⟩], stored }

theorem eligible_keyPolicy (h : Reserved key) (call : ApprovalCall) {id : String} (stored : id ≠ "") :
    eligible coerced call.context (keyPolicy key id stored) = (payloadAt call.payload key).isSome := by
  simp only [eligible, keyPolicy, matches', all_cons, all_nil, conditionHolds, h.resolve call]
  cases payloadAt call.payload key <;> rfl

/-- With a reserved key in its payload, a call meets policies that tell it from the
call without. -/
theorem chooses_reserved (h : Reserved key) (hkey : (payloadAt call.payload key).isSome = true) :
    ¬AgentCannotChoose coerced call := by
  intro hcannot
  -- the policy the gate names, if it names one
  obtain ⟨id, stored, hid⟩ : ∃ id : String, id ≠ "" ∧
      ∀ named, call.context.lookup "policyId" = some (.str named) → named ≠ "" → id = named := by
    by_cases hnamed : ∃ named, call.context.lookup "policyId" = some (.str named) ∧ named ≠ ""
    · obtain ⟨named, hlookup, hne⟩ := hnamed
      refine ⟨named, hne, fun named' hlookup' _ => ?_⟩
      rw [hlookup] at hlookup'
      exact Json.str.inj (Option.some.inj hlookup')
    · exact ⟨"policy", by decide, fun named hl hn => absurd ⟨named, hl, hn⟩ hnamed⟩
  have hsame := (hcannot [keyPolicy key id stored] none).2
  rw [resolvePolicy_ungated coerced (payloadAt_stripped (Or.inl rfl) call)] at hsame
  have hstripped : eligible coerced call.stripped.context (keyPolicy key id stored) = false := by
    rw [eligible_keyPolicy coerced h, payloadAt_stripped h]
    rfl
  have helig : eligible coerced call.context (keyPolicy key id stored) = true := by
    rw [eligible_keyPolicy coerced h, hkey]
  rw [highestEligible, filter_cons_of_neg (by rw [hstripped]; nofun), filter_nil] at hsame
  have hfound : resolvePolicy coerced [keyPolicy key id stored] call.context
      = some (keyPolicy key id stored) := by
    rw [resolvePolicy]
    split
    · next named hlookup =>
      split
      · next hne =>
        obtain rfl := hid named hlookup hne
        simp [keyPolicy]
      · rw [highestEligible, filter_cons_of_pos helig, filter_nil]
        rfl
    · rw [highestEligible, filter_cons_of_pos helig, filter_nil]
      rfl
  rw [hfound] at hsame
  cases hsame

/-- **Which calls leave the policy to the organization**: those whose payload has neither reserved
key. -/
theorem agent_cannot_choose_iff (call : ApprovalCall) :
    AgentCannotChoose coerced call ↔ ∀ key, Reserved key → payloadAt call.payload key = none := by
  refine ⟨fun h key hkey => ?_, cannot_choose_unreserved coerced⟩
  cases hp : payloadAt call.payload key with
  | none => rfl
  | some value => exact absurd h (chooses_reserved coerced hkey (by rw [hp]; rfl))

end

/-- A refund the model asks about, naming a policy that is not there. -/
def evadingCall : ApprovalCall :=
  { agentId := "agent-1", runId := "run-1", reason := .str "Refund the order"
    payload := .obj [("amount", .num 900), ("_gate", .obj [("policyId", .str "none")])] }

def twoForAll : ApprovalPolicy := { twoApproversPolicy with stored := by decide }

/-- No policy is recorded on the request, and one approver decides it. -/
theorem agent_chooses_no_policy : ¬AgentCannotChoose (fun _ _ _ => false) evadingCall := by
  intro h
  have hright := (h [twoForAll] none).1
  have hnone : ∀ q ∈ [twoForAll], eligible (fun _ _ _ => false) evadingCall.context q = false :=
    hright
  exact absurd (hnone twoForAll mem_cons_self) (by decide)

end Almyty.Approvals
