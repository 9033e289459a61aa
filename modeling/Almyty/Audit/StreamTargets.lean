import Almyty.Lib.JsText
import Almyty.Lib.Slots
import Almyty.Lib.Steps

/-!
# Streaming audit events: `audit-stream.service.ts`

An organization streams its audit events to targets of its own: a row says where to, with which
token, which actions, and whether it is on. `dispatch` reads the rows, sends the event to each, and
writes down how that went by saving the row as it read it. An admin edits a row or removes it
meanwhile: the save brings back the old endpoint and token, turns a stream on again that was turned
off, and inserts a row that was removed.

`settings_kept_iff` says of any interleaving when the rows are what their admins made them, with
reports of their own deliveries alone: exactly when every delivery is saved over the settings it was
read with, and no `update` or `setEnabled` saves a row that is removed.

Mirroring notes:
- Each call of the repository is a step. A save writes all columns, and inserts a row that is not
  there; it may fail, and `deliver` goes on when it does.
- `settled` keeps what the last `update` or `setEnabled` of a row has saved, until it is removed.
-/

namespace Almyty.Audit

open Almyty.Lib Option

abbrev Uuid := Nat

structure Destination where
  endpoint : String
  token : Option String
  deriving DecidableEq

structure Settings extends Destination where
  actionFilter : Option (List String)
  enabled : Bool
  deriving DecidableEq

structure Report (α : Type) where
  value : α
  sentTo : Destination

structure AuditStreamConfig extends Settings where
  organizationId : Uuid
  target : String
  lastDeliveredAt : Option (Report Int) := none
  lastError : Option (Report String) := none

structure AuditEvent where
  organizationId : Option Uuid
  action : Option String

structure UpdateStreamConfigInput where
  endpoint : Option String := none
  token : Option (Option String) := none
  actionFilter : Option (Option (List String)) := none
  enabled : Option Bool := none

inductive StreamError
  | notFound (message : String)
  | badRequest (message : String)
  | database

inductive FetchOutcome
  | answered (status : Nat) (at' : Int)
  | threw (message : String)

structure DeliveryResult where
  configId : Uuid
  target : String
  ok : Bool
  status : Option Nat := none
  error : Option String := none

/-! ## The calls -/

inductive DispatchStage
  | opening
  | delivering (targets : List (Uuid × AuditStreamConfig)) (results : List DeliveryResult)
  | failed (error : StreamError)

/-- `update` and `setEnabled`: before the read, while the endpoint is checked, before the save. -/
inductive WriteStage
  | opening
  | checking (row : AuditStreamConfig)
  | saving (row : AuditStreamConfig)
  | returned (row : AuditStreamConfig)
  | failed (error : StreamError)

inductive RemoveStage
  | opening
  | removing
  | returned
  | failed (error : StreamError)

inductive Call
  | dispatch (event : AuditEvent) (stage : DispatchStage)
  | update (organizationId id : Uuid) (patch : UpdateStreamConfigInput) (stage : WriteStage)
  | setEnabled (organizationId id : Uuid) (enabled : Bool) (stage : WriteStage)
  | remove (organizationId id : Uuid) (stage : RemoveStage)

structure World where
  configs : List (Uuid × AuditStreamConfig)
  settled : List (Uuid × Settings)
  calls : List Call := []

/-- What a step gets from elsewhere: whether the database does it, whether the endpoint may be
called, how the request ended. -/
structure Outside where
  ok : Bool := true
  allowed : Bool := true
  outcome : FetchOutcome := .answered 200 0

/-- `actionFilter?.length && event.action && !actionFilter.includes(event.action)`, negated. -/
def AuditStreamConfig.takes (cfg : AuditStreamConfig) (event : AuditEvent) : Bool :=
  let filter := cfg.actionFilter.getD []
  filter.isEmpty || (event.action.filter (· ≠ "")).all (· ∈ filter)

/-- `deliver`: the row with how the request ended. -/
def AuditStreamConfig.recorded (cfg : AuditStreamConfig) (outcome : FetchOutcome) :
    AuditStreamConfig :=
  match outcome with
  | .answered status at' =>
    if 200 ≤ status && status < 300 then
      { cfg with lastDeliveredAt := some ⟨at', cfg.toDestination⟩, lastError := none }
    else { cfg with lastError := some ⟨"HTTP " ++ toString status, cfg.toDestination⟩ }
  | .threw message => { cfg with lastError := some ⟨message, cfg.toDestination⟩ }

def deliveryResult (id : Uuid) (cfg : AuditStreamConfig) (outcome : FetchOutcome) :
    DeliveryResult :=
  match outcome with
  | .answered status _ =>
    { configId := id, target := cfg.target, ok := 200 ≤ status && status < 300
      status := some status }
  | .threw message => { configId := id, target := cfg.target, ok := false, error := some message }

def revised (row : AuditStreamConfig) (patch : UpdateStreamConfigInput) :
    Except StreamError (AuditStreamConfig × Bool) :=
  let endpoint := patch.endpoint.map Js.trimmed
  if endpoint = some "" then .error (.badRequest "endpoint is required")
  else
    let changed := endpoint.any (· ≠ row.endpoint)
    let reset := changed || patch.token.isSome
    let actionFilter := match patch.actionFilter with
      | none => row.actionFilter
      | some filter => filter.filter (· ≠ [])
    let row := { row with
      endpoint := endpoint.getD row.endpoint
      token := match patch.token with
        | none => row.token
        | some token => token.filter (· ≠ "")
      actionFilter
      enabled := patch.enabled.getD row.enabled
      lastError := if reset then none else row.lastError
      lastDeliveredAt := if reset then none else row.lastDeliveredAt }
    .ok (row, changed)

namespace World

def findOne (w : World) (organizationId id : Uuid) : Option AuditStreamConfig :=
  (w.configs.lookup id).filter (·.organizationId = organizationId)

def report (w : World) (id : Uuid) (row : AuditStreamConfig) : World :=
  { w with configs := Assoc.put w.configs id row }

def settle (w : World) (id : Uuid) (row : AuditStreamConfig) : World :=
  { w with
    configs := Assoc.put w.configs id row
    settled := if (w.settled.lookup id).isSome then Assoc.put w.settled id row.toSettings
      else w.settled }

def delete (w : World) (id : Uuid) : World :=
  { w with configs := Assoc.erase w.configs id, settled := Assoc.erase w.settled id }

end World

def advanceDispatch (w : World) (out : Outside) (event : AuditEvent) :
    DispatchStage → World × DispatchStage
  | .opening =>
    match event.organizationId with
    | none => (w, .delivering [] [])
    | some organizationId =>
      if !out.ok then (w, .failed .database)
      else
        (w, .delivering (w.configs.filter fun e =>
          e.2.organizationId = organizationId && e.2.enabled && e.2.takes event) [])
  | .delivering ((id, cfg) :: targets) results =>
    (if out.ok then w.report id (cfg.recorded out.outcome) else w,
      .delivering targets (results ++ [deliveryResult id cfg out.outcome]))
  | stage => (w, stage)

def advanceSave (w : World) (out : Outside) (id : Uuid) (row : AuditStreamConfig) :
    World × WriteStage :=
  if !out.ok then (w, .failed .database) else (w.settle id row, .returned row)

def advanceUpdate (w : World) (out : Outside) (organizationId id : Uuid)
    (patch : UpdateStreamConfigInput) : WriteStage → World × WriteStage
  | .opening =>
    if !out.ok then (w, .failed .database)
    else
      match w.findOne organizationId id with
      | none => (w, .failed (.notFound "stream config not found"))
      | some row =>
        match revised row patch with
        | .error error => (w, .failed error)
        | .ok (row, true) => (w, .checking row)
        | .ok (row, false) => (w, .saving row)
  | .checking row =>
    (w, if out.allowed then .saving row
      else .failed (.badRequest "this SIEM endpoint cannot be called"))
  | .saving row => advanceSave w out id row
  | stage => (w, stage)

def advanceSetEnabled (w : World) (out : Outside) (organizationId id : Uuid) (enabled : Bool) :
    WriteStage → World × WriteStage
  | .opening =>
    if !out.ok then (w, .failed .database)
    else
      match w.findOne organizationId id with
      | none => (w, .failed (.notFound "stream config not found"))
      | some row => (w, .saving { row with enabled := enabled })
  | .saving row => advanceSave w out id row
  | stage => (w, stage)

def advanceRemove (w : World) (out : Outside) (organizationId id : Uuid) :
    RemoveStage → World × RemoveStage
  | .opening =>
    if !out.ok then (w, .failed .database)
    else
      match w.findOne organizationId id with
      | none => (w, .failed (.notFound "stream config not found"))
      | some _ => (w, .removing)
  | .removing => if !out.ok then (w, .failed .database) else (w.delete id, .returned)
  | stage => (w, stage)

def advance (w : World) (out : Outside) : Call → World × Call
  | .dispatch event stage =>
    let (w, stage) := advanceDispatch w out event stage
    (w, .dispatch event stage)
  | .update organizationId id patch stage =>
    let (w, stage) := advanceUpdate w out organizationId id patch stage
    (w, .update organizationId id patch stage)
  | .setEnabled organizationId id enabled stage =>
    let (w, stage) := advanceSetEnabled w out organizationId id enabled stage
    (w, .setEnabled organizationId id enabled stage)
  | .remove organizationId id stage =>
    let (w, stage) := advanceRemove w out organizationId id stage
    (w, .remove organizationId id stage)

inductive Action
  | begin (call : Call)
  | advance (i : Nat) (out : Outside)

def Call.opened : Call → Call
  | .dispatch event _ => .dispatch event .opening
  | .update organizationId id patch _ => .update organizationId id patch .opening
  | .setEnabled organizationId id enabled _ => .setEnabled organizationId id enabled .opening
  | .remove organizationId id _ => .remove organizationId id .opening

def step (w : World) : Action → World
  | .begin call => { w with calls := w.calls ++ [call.opened] }
  | .advance i out =>
    match w.calls[i]? with
    | none => w
    | some call =>
      let (w', call') := Audit.advance w out call
      { w' with calls := w.calls.set i call' }

/-- The rows as they are, settled. -/
def World.start (configs : List (Uuid × AuditStreamConfig)) : World where
  configs := configs
  settled := configs.map fun e => (e.1, e.2.toSettings)

/-! ## What should hold of a row, and the saves that spoil it -/

structure AuditStreamConfig.OwnReports (row : AuditStreamConfig) : Prop where
  delivered : ∀ report, row.lastDeliveredAt = some report → report.sentTo = row.toDestination
  failed : ∀ report, row.lastError = some report → report.sentTo = row.toDestination

/-- Every row has the settings its admins last gave it, and reports of its own; a target that was
removed has no row. -/
def Kept (w : World) : Prop :=
  ∀ id, match w.settled.lookup id with
    | none => w.configs.lookup id = none
    | some settings => ∃ row, w.configs.lookup id = some row ∧ row.toSettings = settings ∧
      row.OwnReports

def carefulCall (w : World) (out : Outside) : Call → Bool
  | .dispatch _ (.delivering ((id, cfg) :: _) _) =>
    !out.ok || w.settled.lookup id = some cfg.toSettings
  | .update _ id _ (.saving _) | .setEnabled _ id _ (.saving _) =>
    !out.ok || (w.settled.lookup id).isSome
  | _ => true

def careful (w : World) : Action → Bool
  | .begin _ => true
  | .advance i out => (w.calls[i]?).all (carefulCall w out)

/-! ## The rows in hand -/

def Call.rows : Call → List (Uuid × AuditStreamConfig)
  | .dispatch _ (.delivering targets _) => targets
  | .update _ id _ (.checking row) | .update _ id _ (.saving row) => [(id, row)]
  | .setEnabled _ id _ (.saving row) => [(id, row)]
  | _ => []

structure Inv (w : World) : Prop where
  keys : (Assoc.keys w.configs).Nodup
  kept : Kept w
  rows : ∀ call ∈ w.calls, ∀ e ∈ call.rows, e.2.OwnReports

variable {w w' : World} {out : Outside} {id : Uuid} {row : AuditStreamConfig}

theorem Kept.removed (h : Kept w) (id : Uuid) (hid : w.settled.lookup id = none) :
    w.configs.lookup id = none := by
  have hrow := h id
  rw [hid] at hrow
  exact hrow

theorem Kept.ownReports (h : Kept w) (hrow : w.configs.lookup id = some row) : row.OwnReports := by
  have hid := h id
  split at hid
  next =>
    rw [hrow] at hid
    cases hid
  next =>
    obtain ⟨row', hrow', -, hown⟩ := hid
    obtain rfl := some.inj (hrow.symm.trans hrow')
    exact hown

theorem AuditStreamConfig.OwnReports.recorded (h : row.OwnReports) (outcome : FetchOutcome) :
    (row.recorded outcome).OwnReports := by
  unfold AuditStreamConfig.recorded
  split
  · split
    · refine ⟨fun report hreport => ?_, fun report hreport => (nomatch hreport)⟩
      obtain rfl := some.inj hreport
      rfl
    · refine ⟨h.delivered, fun report hreport => ?_⟩
      obtain rfl := some.inj hreport
      rfl
  · refine ⟨h.delivered, fun report hreport => ?_⟩
    obtain rfl := some.inj hreport
    rfl

theorem recorded_toSettings (outcome : FetchOutcome) :
    (row.recorded outcome).toSettings = row.toSettings := by
  unfold AuditStreamConfig.recorded
  split
  · split <;> rfl
  · rfl

theorem AuditStreamConfig.OwnReports.revised {patch : UpdateStreamConfigInput}
    {row' : AuditStreamConfig} {changed : Bool} (h : row.OwnReports)
    (hok : Audit.revised row patch = .ok (row', changed)) : row'.OwnReports := by
  unfold Audit.revised at hok
  dsimp only at hok
  split at hok
  · cases hok
  obtain ⟨rfl, -⟩ := Prod.mk.inj (Except.ok.inj hok)
  cases hreset : (patch.endpoint.map Js.trimmed).any (· ≠ row.endpoint) || patch.token.isSome with
  | true => exact ⟨fun _ hreport => by simp at hreport, fun _ hreport => by simp at hreport⟩
  | false =>
    obtain ⟨hendpoint, htoken⟩ := Bool.or_eq_false_iff.mp hreset
    have hsame : (patch.endpoint.map Js.trimmed).getD row.endpoint = row.endpoint := by
      cases hpatch : patch.endpoint.map Js.trimmed with
      | none => rfl
      | some endpoint =>
        rw [hpatch] at hendpoint
        simpa using hendpoint
    have hnone : patch.token = none := by simpa using htoken
    refine ⟨fun report hreport => ?_, fun report hreport => ?_⟩
    · rw [h.delivered report (by simpa using hreport)]
      simp [hsame, hnone]
    · rw [h.failed report (by simpa using hreport)]
      simp [hsame, hnone]

/-! ## The saves -/

theorem kept_report_iff (h : Kept w) (hrow : row.OwnReports) :
    Kept (w.report id row) ↔ w.settled.lookup id = some row.toSettings := by
  constructor
  · intro hkept
    have hid := hkept id
    have hput : (w.report id row).configs.lookup id = some row :=
      (Assoc.lookup_put ..).trans (if_pos rfl)
    split at hid
    next =>
      rw [hput] at hid
      cases hid
    next settings hsettled =>
      obtain ⟨row', hrow', hsettings, -⟩ := hid
      obtain rfl := some.inj (hput.symm.trans hrow')
      rw [hsettings]
      exact hsettled
  · intro hsettled other
    have hother := h other
    show match w.settled.lookup other with
      | none => (Assoc.put w.configs id row).lookup other = none
      | some settings => ∃ row', (Assoc.put w.configs id row).lookup other = some row' ∧ _
    rw [Assoc.lookup_put]
    by_cases heq : other = id
    · rw [heq, hsettled, if_pos rfl]
      exact ⟨row, rfl, rfl, hrow⟩
    · rw [if_neg heq]
      exact hother

theorem kept_settle_iff (h : Kept w) (hrow : row.OwnReports) :
    Kept (w.settle id row) ↔ (w.settled.lookup id).isSome = true := by
  constructor
  · intro hkept
    by_contra hnone
    have hid := hkept id
    have hsame : (w.settle id row).settled = w.settled := if_neg hnone
    have hput : (w.settle id row).configs.lookup id = some row :=
      (Assoc.lookup_put ..).trans (if_pos rfl)
    rw [hsame, hput, not_isSome_iff_eq_none.mp hnone] at hid
    cases hid
  · intro hsome other
    have hother := h other
    have hsettled : (w.settle id row).settled = Assoc.put w.settled id row.toSettings :=
      if_pos hsome
    rw [hsettled, Assoc.lookup_put]
    show match (if other = id then some row.toSettings else w.settled.lookup other) with
      | none => (Assoc.put w.configs id row).lookup other = none
      | some settings => ∃ row', (Assoc.put w.configs id row).lookup other = some row' ∧ _
    rw [Assoc.lookup_put]
    by_cases heq : other = id
    · rw [if_pos heq, if_pos heq]
      exact ⟨row, rfl, rfl, hrow⟩
    · rw [if_neg heq, if_neg heq]
      exact hother

theorem kept_delete (h : Kept w) : Kept (w.delete id) := by
  intro other
  have hother := h other
  show match (Assoc.erase w.settled id).lookup other with
    | none => (Assoc.erase w.configs id).lookup other = none
    | some settings => ∃ row', (Assoc.erase w.configs id).lookup other = some row' ∧ _
  rw [Assoc.lookup_erase, Assoc.lookup_erase]
  by_cases heq : other = id
  · rw [if_pos heq, if_pos heq]
  · rw [if_neg heq, if_neg heq]
    exact hother

/-! ## One step -/

def HandsOwn (call : Call) : Prop := ∀ e ∈ call.rows, e.2.OwnReports

variable {call : Call}

theorem handsOwn_of_rows_nil (h : call.rows = []) : HandsOwn call := by
  unfold HandsOwn
  rw [h]
  exact fun _ he => absurd he List.not_mem_nil

theorem handsOwn_singleton (h : call.rows = [(id, row)]) (hrow : row.OwnReports) :
    HandsOwn call := by
  unfold HandsOwn
  rw [h]
  exact fun e he => List.mem_singleton.mp he ▸ hrow

theorem handsOwn_advance (hkeys : (Assoc.keys w.configs).Nodup) (h : Kept w) (hcall : HandsOwn call)
   : HandsOwn (advance w out call).2 := by
  have hfound {o id : Uuid} {row : AuditStreamConfig} (hrow : w.findOne o id = some row) :
      row.OwnReports :=
    h.ownReports (filter_eq_some_iff.mp hrow).1
  cases call with
  | dispatch event stage =>
    unfold advance advanceDispatch
    cases stage with
    | opening =>
      dsimp only
      split
      · exact handsOwn_of_rows_nil rfl
      split
      · exact handsOwn_of_rows_nil rfl
      · exact fun e he => h.ownReports (Assoc.lookup_of_mem hkeys (List.mem_filter.mp he).1)
    | delivering targets results =>
      cases targets with
      | nil => exact hcall
      | cons e targets => exact fun e' he' => hcall e' (List.mem_cons_of_mem _ he')
    | failed error => exact hcall
  | update o id patch stage =>
    unfold advance advanceUpdate advanceSave
    cases stage with
    | opening =>
      dsimp only
      split
      · exact handsOwn_of_rows_nil rfl
      split
      · exact handsOwn_of_rows_nil rfl
      next row hrow =>
      split
      · exact handsOwn_of_rows_nil rfl
      next hrevised => exact handsOwn_singleton rfl ((hfound hrow).revised hrevised)
      next hrevised => exact handsOwn_singleton rfl ((hfound hrow).revised hrevised)
    | checking row =>
      dsimp only
      split
      · exact hcall
      · exact handsOwn_of_rows_nil rfl
    | saving row =>
      dsimp only
      split <;> exact handsOwn_of_rows_nil rfl
    | returned row | failed error => exact handsOwn_of_rows_nil rfl
  | setEnabled o id enabled stage =>
    unfold advance advanceSetEnabled advanceSave
    cases stage with
    | opening =>
      dsimp only
      split
      · exact handsOwn_of_rows_nil rfl
      split
      · exact handsOwn_of_rows_nil rfl
      next row hrow => exact handsOwn_singleton rfl ⟨(hfound hrow).delivered, (hfound hrow).failed⟩
    | checking row => exact hcall
    | saving row =>
      dsimp only
      split <;> exact handsOwn_of_rows_nil rfl
    | returned row | failed error => exact handsOwn_of_rows_nil rfl
  | remove o id stage => exact handsOwn_of_rows_nil rfl

theorem kept_advanceSave_iff (h : Kept w) (hrow : row.OwnReports) :
    Kept (advanceSave w out id row).1 ↔ (!out.ok || (w.settled.lookup id).isSome) = true := by
  unfold advanceSave
  split
  next hfails => exact iff_of_true h (by simp [hfails])
  next hok =>
    refine (kept_settle_iff h hrow).trans ?_
    simp only [Bool.not_eq_true, Bool.not_eq_false'] at hok
    rw [hok]
    rfl

theorem kept_advance_iff (h : Kept w) (hcall : HandsOwn call) :
    Kept (advance w out call).1 ↔ carefulCall w out call = true := by
  cases call with
  | dispatch event stage =>
    unfold advance advanceDispatch
    cases stage with
    | opening =>
      refine iff_of_true ?_ rfl
      dsimp only
      repeat' split
      all_goals exact h
    | delivering targets results =>
      cases targets with
      | nil => exact iff_of_true h rfl
      | cons e targets =>
        obtain ⟨id, cfg⟩ := e
        have hcfg : cfg.OwnReports := hcall (id, cfg) List.mem_cons_self
        show Kept (if out.ok then w.report id (cfg.recorded out.outcome) else w) ↔ _
        cases hok : out.ok with
        | false => exact iff_of_true h (by simp [carefulCall, hok])
        | true =>
          rw [if_pos rfl, kept_report_iff h (hcfg.recorded _), recorded_toSettings]
          simp [carefulCall, hok]
    | failed error => exact iff_of_true h rfl
  | update o id _ stage | setEnabled o id _ stage =>
    unfold advance
    simp only [advanceUpdate, advanceSetEnabled]
    cases stage with
    | opening =>
      refine iff_of_true ?_ rfl
      dsimp only
      repeat' split
      all_goals exact h
    | saving row => exact kept_advanceSave_iff h (hcall (id, row) (List.mem_singleton_self _))
    | checking row | returned row | failed error => exact iff_of_true h rfl
  | remove o id stage =>
    unfold advance advanceRemove
    refine iff_of_true ?_ rfl
    cases stage with
    | opening =>
      dsimp only
      repeat' split
      all_goals exact h
    | removing =>
      dsimp only
      split
      · exact h
      · exact kept_delete h
    | returned | failed error => exact h

theorem keys_advance (hkeys : (Assoc.keys w.configs).Nodup) :
    (Assoc.keys (advance w out call).1.configs).Nodup := by
  have hsave (id : Uuid) (row : AuditStreamConfig) :
      (Assoc.keys (advanceSave w out id row).1.configs).Nodup := by
    unfold advanceSave
    split
    · exact hkeys
    · exact Assoc.put_keys_nodup hkeys id row
  cases call with
  | dispatch event stage =>
    unfold advance advanceDispatch
    dsimp only
    split
    · repeat' split
      all_goals exact hkeys
    · dsimp only
      split
      · exact Assoc.put_keys_nodup hkeys _ _
      · exact hkeys
    · exact hkeys
  | update o id patch stage =>
    unfold advance advanceUpdate
    cases stage with
    | opening =>
      dsimp only
      repeat' split
      all_goals exact hkeys
    | saving row => exact hsave id row
    | checking row | returned row | failed error => exact hkeys
  | setEnabled o id enabled stage =>
    unfold advance advanceSetEnabled
    cases stage with
    | opening =>
      dsimp only
      repeat' split
      all_goals exact hkeys
    | saving row => exact hsave id row
    | checking row | returned row | failed error => exact hkeys
  | remove o id stage =>
    unfold advance advanceRemove
    cases stage with
    | opening =>
      dsimp only
      repeat' split
      all_goals exact hkeys
    | removing =>
      dsimp only
      split
      · exact hkeys
      · exact Assoc.filter_keys_nodup hkeys _
    | returned | failed error => exact hkeys

/-! ## Any interleaving -/

theorem kept_step_iff (h : Inv w) (action : Action) :
    Kept (step w action) ↔ careful w action = true := by
  cases action with
  | begin call => exact iff_of_true h.kept rfl
  | advance i out =>
    unfold step careful
    dsimp only
    cases hcall : w.calls[i]? with
    | none => exact iff_of_true h.kept rfl
    | some call => exact kept_advance_iff h.kept (h.rows call (List.mem_of_getElem? hcall))

theorem Inv.step (h : Inv w) (action : Action) (hcareful : careful w action = true) :
    Inv (step w action) := by
  have hkept := (kept_step_iff h action).mpr hcareful
  cases action with
  | begin call =>
    refine ⟨h.keys, hkept, fun call' hcall' => ?_⟩
    rcases List.mem_append.mp hcall' with hmem | hmem
    · exact h.rows call' hmem
    · rw [List.mem_singleton.mp hmem]
      exact handsOwn_of_rows_nil (by cases call <;> rfl)
  | advance i out =>
    unfold Audit.step at hkept ⊢
    dsimp only at hkept ⊢
    cases hcall : w.calls[i]? with
    | none => exact h
    | some call =>
      rw [hcall] at hkept
      refine ⟨keys_advance h.keys, hkept, fun call' hcall' => ?_⟩
      rcases List.mem_or_eq_of_mem_set hcall' with hmem | rfl
      · exact h.rows call' hmem
      · exact handsOwn_advance h.keys h.kept (h.rows call (List.mem_of_getElem? hcall))

theorem inv_start {configs : List (Uuid × AuditStreamConfig)} (hkeys : (Assoc.keys configs).Nodup)
    (hown : ∀ e ∈ configs, e.2.OwnReports) : Inv (World.start configs) where
  keys := hkeys
  rows := fun _ hcall => absurd hcall List.not_mem_nil
  kept := by
    intro id
    show match (configs.map fun e => (e.1, e.2.toSettings)).lookup id with
      | none => configs.lookup id = none
      | some settings => ∃ row, configs.lookup id = some row ∧ row.toSettings = settings ∧ _
    rw [Assoc.lookup_map_snd]
    cases hrow : configs.lookup id with
    | none => rfl
    | some row => exact ⟨row, rfl, rfl, hown _ (Assoc.mem_of_lookup hrow)⟩

theorem settings_kept_iff (configs : List (Uuid × AuditStreamConfig))
    (hkeys : (Assoc.keys configs).Nodup) (hown : ∀ e ∈ configs, e.2.OwnReports)
    (actions : List Action) :
    Steps.Along step (fun w action => Kept (step w action)) (World.start configs) actions ↔
      Steps.Along step (fun w action => careful w action = true) (World.start configs) actions :=
  Steps.along_iff_of_invariant Inv (fun _ action h hcareful => h.step action hcareful)
    (fun _ action h => kept_step_iff h action) (inv_start hkeys hown)

/-! ## A stale save -/

/-- A target of the organization 7. -/
def siem : List (Uuid × AuditStreamConfig) :=
  [(1, { endpoint := "https://old.example", token := some "t1", actionFilter := none
         enabled := true, organizationId := 7, target := "webhook" })]

def moved : UpdateStreamConfigInput := { endpoint := some "https://new.example" }

/-- A delivery to the old endpoint is under way while it is moved, or removed: the row points there
again. -/
theorem delivery_restores_endpoint :
    ¬Steps.Along step (fun w action => Kept (step w action)) (World.start siem)
      [.begin (.dispatch ⟨some 7, some "login"⟩ .opening), .advance 0 {},
        .begin (.update 7 1 moved .opening), .advance 1 {}, .advance 1 {}, .advance 1 {},
        .advance 0 {}] ∧
    ¬Steps.Along step (fun w action => Kept (step w action)) (World.start siem)
      [.begin (.dispatch ⟨some 7, some "login"⟩ .opening), .advance 0 {},
        .begin (.remove 7 1 .opening), .advance 1 {}, .advance 1 {}, .advance 0 {}] := by
  constructor
  · intro h
    obtain ⟨row, hrow, hsettings, -⟩ := h.2.2.2.2.2.2.1 1
    obtain rfl := some.inj hrow
    revert hsettings
    decide
  · intro h
    have hremoved := Kept.removed h.2.2.2.2.2.1 1 (by decide)
    exact absurd hremoved (by decide)

/-- A delivery that is over before the endpoint is moved. -/
theorem delivery_before_move_kept :
    Steps.Along step (fun w action => Kept (step w action)) (World.start siem)
      [.begin (.dispatch ⟨some 7, some "login"⟩ .opening), .advance 0 {}, .advance 0 {},
        .begin (.update 7 1 moved .opening), .advance 1 {}, .advance 1 {}, .advance 1 {}] := by
  refine (settings_kept_iff siem (by decide) (fun e he => ?_) _).mpr (by decide)
  obtain rfl := List.mem_singleton.mp he
  exact ⟨fun _ h => (nomatch h), fun _ h => (nomatch h)⟩

end Almyty.Audit
