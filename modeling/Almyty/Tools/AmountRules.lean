import Almyty.Tools.RestRequest

/-!
# What an amount rule judges, and what is sent

The gate reads a rule's input at a dot path of the call's parameters, before the executor
lays the parameters out. A rule judges what is sent (`JudgesWhatIsSent`) when no request
carries a value for the input that is over the limit, or no number, past the gate.

For arguments by name the two agree: a value sent for an input under its own name is the
value the gate reads there (`holds_flat`). They part where the arguments hold a value
for the input that stands elsewhere: in a group, under a name with a dot in it, or inside
a query parameter that is written out into several. `judges_what_is_sent_iff` says that
these are the only ways past a rule.
-/

namespace Almyty.Tools

open Almyty.Lib List
open Almyty.Approvals

section Flat

variable {engine : Engine}

theorem mem_assignEach {α : Type} {names : List String} {value : String → Option α}
    {e : String × α} (h : e ∈ assignEach names value) : value e.1 = some e.2 := by
  suffices hfold : ∀ into : List (String × α),
      e ∈ names.foldl (assignSome value) into → value e.1 = some e.2 ∨ e ∈ into by
    exact (hfold [] h).resolve_right not_mem_nil
  clear h
  induction names with
  | nil => exact fun _ h => .inr h
  | cons name names ih =>
    intro into h
    rw [foldl_cons] at h
    rcases ih _ h with h | h
    · exact .inl h
    · unfold assignSome at h
      split at h
      · next v hv =>
        rcases Js.mem_assign h with rfl | h
        · exact .inl hv
        · exact .inr h
      · exact .inr h

theorem mem_writePath {params : List (String × Js.At)} {e : String × Js.At} (url : List Char)
    (h : e ∈ (writePath engine url params).2) : e ∈ params := by
  induction params generalizing url with
  | nil => exact h
  | cons p params ih =>
    rw [writePath] at h
    dsimp only at h
    split at h
    · rcases mem_cons.mp h with rfl | h
      · exact mem_cons_self
      · exact mem_cons_of_mem _ (ih _ h)
    · exact mem_cons_of_mem _ (ih _ h)

theorem mem_sanitizeHeader {sanitized kept : List (String × HeaderParam)}
    {p : String × HeaderParam} (h : sanitizeHeader engine sanitized p = some kept) :
    ∀ e ∈ kept, e = p ∨ e ∈ sanitized := by
  intro e he
  unfold sanitizeHeader at h
  split at h
  · exact .inr (Option.some.inj h ▸ he)
  split at h
  · exact .inr (Option.some.inj h ▸ he)
  split at h
  · cases h
  · exact .inr (Option.some.inj h ▸ he)
  · exact Js.mem_assign (Option.some.inj h ▸ he)

theorem mem_sanitizeHeaders {headers kept : List (String × HeaderParam)}
    (h : sanitizeHeaders engine headers = some kept) : ∀ e ∈ kept, e ∈ headers := by
  suffices hfold : ∀ sanitized, headers.foldlM (sanitizeHeader engine) sanitized = some kept →
      ∀ e ∈ kept, e ∈ headers ∨ e ∈ sanitized by
    exact fun e he => (hfold [] h e he).resolve_right not_mem_nil
  clear h
  induction headers with
  | nil =>
    intro sanitized h e he
    rw [foldlM_nil] at h
    exact .inr (Option.some.inj h ▸ he)
  | cons p headers ih =>
    intro sanitized h e he
    rw [foldlM_cons] at h
    obtain ⟨next, hnext, h⟩ := Option.bind_eq_some_iff.mp h
    rcases ih next h e he with hin | hin
    · exact .inl (mem_cons_of_mem _ hin)
    · rcases mem_sanitizeHeader hnext e hin with rfl | hin
      · exact .inl mem_cons_self
      · exact .inr hin

/-! ## Arguments by name -/

/-- A query parameter that is written as it is: no object, no array, no text read as
one. -/
def isPlain (engine : Engine) (styles : Fields) (name : String) (raw : Json) : Bool :=
  match raw with
  | .arr _ | .obj _ => false
  | raw => readQueryValue engine ((Js.At.json (.obj styles)).get name) raw = raw

variable {name : String}

theorem serialize_of_isPlain {styles : Fields} {raw : Json}
    (h : isPlain engine styles name raw = true) :
    serializeQueryParam engine styles name raw = push name raw := by
  unfold serializeQueryParam
  cases raw with
  | arr | obj => cases h
  | null | bool | num => rfl
  | str s =>
    have hread := of_decide_eq_true h
    simp only [hread]

def LaidOut.holds (engine : Engine) (baseUrl : String) (operation : Operation) (laid : LaidOut)
    (name : String) : List Js.At :=
  match sanitizeHeaders engine laid.headerParams with
  | none => []
  | some headers =>
    ((writePath engine (joinUrl baseUrl operation.endpoint) laid.pathParams).2.filter
        (·.1 = name)).map (·.2) ++
      ((serializeQueryParams engine laid.queryParams operation.parameters.query).filter
        (·.1 = name)).map (fun e => .json e.2) ++
      (headers.filter (sameHeader ·.1 name)).map (·.2.value) ++
      if laid.bodyData.truthy && operation.method.writes then
        (laid.bodyData.fieldsOrEmpty.filter (·.1 = name)).map (fun e => .json e.2)
      else []

/-- What arguments by name hold for an input under another name: in a query parameter
written as several, or in a header named alike but for case. -/
def LaidOut.indirect (engine : Engine) (operation : Operation) (laid : LaidOut) (name : String) :
    List Js.At :=
  let styles := operation.parameters.query
  match sanitizeHeaders engine laid.headerParams with
  | none => []
  | some headers =>
    ((serializeQueryParams engine
        (laid.queryParams.filter fun e => !isPlain engine styles e.1 e.2) styles).filter
        (·.1 = name)).map (fun e => .json e.2) ++
      (headers.filter fun e => sameHeader e.1 name && e.1 ≠ name).map (·.2.value)

variable {operation : Operation} {baseUrl : String}

theorem carries_eq_holds {laid : LaidOut} {request : RestRequest}
    (h : buildRequest engine baseUrl operation laid = some request) (name : String) :
    request.carries engine name = laid.holds engine baseUrl operation name := by
  obtain ⟨headers, hheaders, rfl⟩ := Option.map_eq_some_iff.mp h
  rw [LaidOut.holds, hheaders, RestRequest.carries]
  dsimp only [RestRequest.bodyFields]
  split
  · rfl
  · rfl

theorem exists_request {laid : LaidOut} {value : Js.At}
    (h : value ∈ laid.holds engine baseUrl operation name) :
    ∃ request, buildRequest engine baseUrl operation laid = some request := by
  cases hheaders : sanitizeHeaders engine laid.headerParams with
  | none =>
    rw [LaidOut.holds, hheaders] at h
    exact absurd h not_mem_nil
  | some headers => simp only [buildRequest, hheaders, Option.map_some, Option.some.injEq, exists_eq']

structure ByName (parameters : Fields) (laid : LaidOut) : Prop where
  path : ∀ e ∈ laid.pathParams, e.2 = (Js.At.json (.obj parameters)).get e.1
  query : ∀ e ∈ laid.queryParams, parameters.lookup e.1 = some e.2
  header : ∀ e ∈ laid.headerParams, e.2.value = (Js.At.json (.obj parameters)).get e.1
  body : ∀ e ∈ laid.bodyData.fieldsOrEmpty, parameters.lookup e.1 = some e.2

theorem get_of_lookup {parameters : Fields} {value : Json} (h : parameters.lookup name = some value) :
    (Js.At.json (.obj parameters)).get name = .json value := by
  simp only [Js.At.get, h]

theorem flat_byName (operation : Operation) (parameters : Fields) :
    ByName parameters (flat operation parameters) := by
  have hpath : ∀ e ∈ assignEach (pathParamNames operation) fun name =>
      if (Js.At.json (.obj parameters)).get name = .undefined then none
      else some ((Js.At.json (.obj parameters)).get name),
      e.2 = (Js.At.json (.obj parameters)).get e.1 := by
    intro e he
    have hvalue := mem_assignEach he
    split at hvalue
    · cases hvalue
    · exact (Option.some.inj hvalue).symm
  have hheader : ∀ e ∈ assignEach (operationHeaderParams operation) fun name =>
      if ((Js.At.json (.obj parameters)).get name).nullish then none
      else some (HeaderParam.text ((Js.At.json (.obj parameters)).get name)),
      e.2.value = (Js.At.json (.obj parameters)).get e.1 := by
    intro e he
    have hvalue := mem_assignEach he
    split at hvalue
    · cases hvalue
    · rw [← Option.some.inj hvalue]
      rfl
  unfold flat
  dsimp only
  split
  · exact ⟨hpath, fun e he => mem_assignEach he, hheader, fun e he => mem_assignEach he⟩
  · exact ⟨hpath, fun e he => mem_assignEach he, hheader, fun e he => absurd he not_mem_nil⟩

theorem holds_flat {parameters : Fields} {value : Js.At}
    (h : value ∈ (flat operation parameters).holds engine baseUrl operation name) :
    value ∈ (flat operation parameters).indirect engine operation name ∨
      value = (Js.At.json (.obj parameters)).get name := by
  have hnamed := flat_byName operation parameters
  generalize flat operation parameters = laid at h hnamed ⊢
  cases hheaders : sanitizeHeaders engine laid.headerParams with
  | none =>
    rw [LaidOut.holds, hheaders] at h
    exact absurd h not_mem_nil
  | some headers =>
    rw [LaidOut.holds, hheaders] at h
    rw [LaidOut.indirect, hheaders]
    simp only [mem_append, mem_map, mem_filter, decide_eq_true_eq] at h
    rcases h with ((⟨e, ⟨he, rfl⟩, rfl⟩ | ⟨e, ⟨he, rfl⟩, rfl⟩) | ⟨e, ⟨he, hname⟩, rfl⟩) | h
    · exact .inr (hnamed.path e (mem_writePath _ he))
    · obtain ⟨p, hp, hpart⟩ := mem_flatMap.mp he
      by_cases hplain : isPlain engine operation.parameters.query p.1 p.2 = true
      · -- written as it is, so under its own name
        rw [serialize_of_isPlain hplain, push] at hpart
        split at hpart
        · exact absurd hpart not_mem_nil
        · obtain rfl : e = p := mem_singleton.mp hpart
          exact .inr (get_of_lookup (hnamed.query e hp)).symm
      · refine .inl (mem_append.mpr (.inl (mem_map.mpr ⟨e, ?_, rfl⟩)))
        refine mem_filter.mpr ⟨mem_flatMap.mpr ⟨p, ?_, hpart⟩, by simp⟩
        exact mem_filter.mpr ⟨hp, by simpa using hplain⟩
    · by_cases hown : e.1 = name
      · subst hown
        exact .inr (hnamed.header e (mem_sanitizeHeaders hheaders e he))
      · refine .inl (mem_append.mpr (.inr (mem_map.mpr ⟨e, ?_, rfl⟩)))
        exact mem_filter.mpr ⟨he, by simp [hname, hown]⟩
    · split at h
      · simp only [mem_map, mem_filter, decide_eq_true_eq] at h
        obtain ⟨e, ⟨he, rfl⟩, rfl⟩ := h
        exact .inr (get_of_lookup (hnamed.body e he)).symm
      · exact absurd h not_mem_nil

theorem holds_of_indirect {laid : LaidOut} {value : Js.At}
    (h : value ∈ laid.indirect engine operation name) :
    value ∈ laid.holds engine baseUrl operation name := by
  rw [LaidOut.indirect] at h
  rw [LaidOut.holds]
  cases hheaders : sanitizeHeaders engine laid.headerParams with
  | none =>
    rw [hheaders] at h
    exact h
  | some headers =>
    rw [hheaders] at h
    refine mem_append.mpr (.inl (mem_append.mpr ?_))
    rcases mem_append.mp h with h | h
    · obtain ⟨e, he, rfl⟩ := mem_map.mp h
      obtain ⟨hpart, hname⟩ := mem_filter.mp he
      obtain ⟨p, hp, hpart⟩ := mem_flatMap.mp hpart
      refine .inl (mem_append.mpr (.inr (mem_map.mpr ⟨e, ?_, rfl⟩)))
      refine mem_filter.mpr ⟨?_, hname⟩
      exact mem_flatMap.mpr ⟨p, (mem_filter.mp hp).1, hpart⟩
    · obtain ⟨e, he, rfl⟩ := mem_map.mp h
      obtain ⟨he, hname⟩ := mem_filter.mp he
      refine .inr (mem_map.mpr ⟨e, mem_filter.mpr ⟨he, ?_⟩, rfl⟩)
      exact (Bool.and_eq_true_iff.mp hname).1

end Flat

/-! ## The rule and the request -/

/-- The values the arguments hold for an input at another place than the gate reads: in a
group, under a whole name with a dot in it, or under another input's name. -/
def elsewhere (engine : Engine) (baseUrl : String) (operation : Operation) (parameters : Fields)
    (name : String) : List Js.At :=
  if isGroupedArguments parameters operation then
    (grouped parameters).holds engine baseUrl operation name
  else if name.toList.contains '.' then
    (flat operation parameters).holds engine baseUrl operation name
  else (flat operation parameters).indirect engine operation name

/-- **An amount rule judges what is sent**: whatever rules and rows there are besides, no
request carries for the rule's input a value that is no number or over the limit, unless
the gate holds the call. -/
def JudgesWhatIsSent (engine : Engine) (tool : Tool) (baseUrl : String) (operation : Operation)
    (trigger : ApprovalToolAmountTrigger) (parameters : Fields) : Prop :=
  validateParameters tool (.ofFields parameters) = [] →
    ∀ (rows : GateRows) (context : GateContext) (policy : ApprovalPolicy),
      Governs rows tool context policy trigger →
    ∀ (network : Network) (request : RestRequest),
      executeRestOperation engine network baseUrl operation parameters = some request →
    ∀ value ∈ request.carries engine trigger.argument, Trips engine trigger value →
      (check engine rows tool (.ofFields parameters) context).isSome = true

section

variable (engine : Engine) (baseUrl : String) (operation : Operation) (parameters : Fields)

theorem holds_layOut_iff (trigger : ApprovalToolAmountTrigger) :
    (∀ value ∈ (layOut operation parameters).holds engine baseUrl operation trigger.argument,
        Trips engine trigger value →
          Trips engine trigger (readArgument (.ofFields parameters) trigger.argument)) ↔
      ∀ value ∈ elsewhere engine baseUrl operation parameters trigger.argument,
        Trips engine trigger value →
          Trips engine trigger (readArgument (.ofFields parameters) trigger.argument) := by
  unfold layOut elsewhere
  split
  · exact Iff.rfl
  split
  · exact Iff.rfl
  next hdot =>
  have hread : readArgument (.ofFields parameters) trigger.argument
      = (Js.At.json (.obj parameters)).get trigger.argument := by
    rw [readArgument_of_key _ (by simpa using hdot), Params.get_ofFields]
  constructor
  · intro h value hvalue
    exact h value (holds_of_indirect hvalue)
  · intro h value hvalue htrips
    rcases holds_flat hvalue with hindirect | hread'
    · exact h value hindirect htrips
    · rw [hread, ← hread']
      exact htrips

theorem check_alone {tool : Tool} {policy : ApprovalPolicy} {trigger : ApprovalToolAmountTrigger}
    {params : Params} (h : Governs { policies := [policy] } tool {} policy trigger)
    (hhit : (check engine { policies := [policy] } tool params {}).isSome = true) :
    Trips engine trigger (readArgument params trigger.argument) := by
  have hrules : rulesOn { policies := [policy] } tool = [policy] := by
    simp [rulesOn, h.enabled, h.rule, h.onTool]
  have hask : askFirstHit engine { policies := [policy] } tool params {} = none := rfl
  rw [← h.ruleHit_isSome_iff engine params]
  rw [check, hask, Option.or_none, hrules] at hhit
  rw [hrules]
  cases hrule : ruleHit engine tool params
      (callingTeam { policies := [policy] } [policy] {}) policy with
  | none =>
    rw [List.findSome?_cons, hrule] at hhit
    exact hhit
  | some hit => rfl

end

/-- **What the gate does not see**: what the arguments hold for the rule's input elsewhere. -/
theorem judges_what_is_sent_iff (engine : Engine) (tool : Tool) (baseUrl : String)
    (operation : Operation) (argument : String) (op : AmountOp) (amount : Rat)
    (parameters : Fields) :
    JudgesWhatIsSent engine tool baseUrl operation ⟨tool.id, argument, op, amount⟩ parameters ↔
      (validateParameters tool (.ofFields parameters) = [] →
        ∀ value ∈ elsewhere engine baseUrl operation parameters argument,
          Trips engine ⟨tool.id, argument, op, amount⟩ value →
            Trips engine ⟨tool.id, argument, op, amount⟩
              (readArgument (.ofFields parameters) argument)) := by
  let trigger : ApprovalToolAmountTrigger := ⟨tool.id, argument, op, amount⟩
  have hsplit := holds_layOut_iff engine baseUrl operation parameters trigger
  constructor
  · intro h hvalid
    refine hsplit.mp fun value hvalue htrips => ?_
    -- the rule alone, on a network without rules
    obtain ⟨request, hrequest⟩ := exists_request hvalue
    let policy : ApprovalPolicy :=
      { id := "rule", name := "", steps := [], trigger := some trigger, stored := by decide }
    have hgoverns : Governs { policies := [policy] } tool {} policy trigger :=
      ⟨mem_singleton.mpr rfl, rfl, rfl, rfl, rfl⟩
    have hsent : executeRestOperation engine ⟨fun _ => true, fun _ _ => true⟩ baseUrl operation
        parameters = some request := hrequest
    refine check_alone engine hgoverns ?_
    refine h hvalid _ _ policy hgoverns _ request hsent value ?_ htrips
    rw [carries_eq_holds hrequest]
    exact hvalue
  · intro h hvalid rows context policy hgoverns network request hrequest value hvalue htrips
    have hbuilt : buildRequest engine baseUrl operation (layOut operation parameters)
        = some request := by
      simp only [executeRestOperation, Option.bind_eq_bind, Option.bind_eq_some_iff] at hrequest
      obtain ⟨_, _, _, _, _, _, hbuilt⟩ := hrequest
      exact hbuilt
    rw [carries_eq_holds hbuilt] at hvalue
    exact check_isSome hgoverns (hsplit.mpr (h hvalid) value hvalue htrips)

/-- `POST /refunds` with one declared input, the amount in its body. -/
def refundOperation : Operation where
  method := .POST
  endpoint := "/refunds"
  parameters :=
    { body := .obj [("schema", .obj [("type", .str "object"),
        ("properties", .obj [("amount", .obj [("type", .str "number")])])])] }

def refundTool : Tool := { id := "t", name := "issue_refund", readableName := "Issue a refund" }

/-- Nine hundred in the body's group is sent, and a rule at five hundred is not asked. -/
theorem grouped_amount_passes :
    "amount" ∈ refundOperation.declared ∧
      ¬JudgesWhatIsSent wholeEngine refundTool "https://api.example.com" refundOperation
        ⟨"t", "amount", .gt, 500⟩ [("body", .obj [("amount", .num 900)])] := by
  refine ⟨by decide, fun h => ?_⟩
  let policy : ApprovalPolicy :=
    { id := "rule", name := "", steps := [], trigger := some ⟨"t", "amount", .gt, 500⟩
      stored := by decide }
  have hgoverns : Governs { policies := [policy] } refundTool {} policy
      ⟨"t", "amount", .gt, 500⟩ := ⟨mem_singleton.mpr rfl, rfl, rfl, rfl, rfl⟩
  have hhit := h (by decide) _ _ policy hgoverns ⟨fun _ => true, fun _ _ => true⟩ _ rfl
    (.json (.num 900)) (by decide) ⟨by decide, fun n hn => by cases hn; decide⟩
  exact absurd hhit (by decide)

end Almyty.Tools
