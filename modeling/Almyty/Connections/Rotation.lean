import Almyty.Lib.JsText
import Almyty.Lib.Slots
import Almyty.Lib.Steps

/-!
# Rotating a connection's key: `rotation.service.ts`

`rotate` has the provider mint a key, checks the merged secrets, stores them and has the provider
revoke the key they replace; each of the four steps may fail, and nothing keeps two rotations of one
connection apart. What is left at the provider should be the stored key.

The key a rotation replaces is never revoked before a checked replacement is stored, and what is
stored is a live key, whatever fails and however calls overlap (`rotation_keeps_one_key`, first two
parts). Keys are left over in three ways, and the last part says that there is no other: a key that
did not pass its check, at a provider with no revoke; a key whose `persist` failed, which nothing
revokes; and a stored key that is overwritten by a rotation which did not start from it.

Mirroring notes:
- A secret is its config; `keyOf` reads the key in it, and a provider's `mint` gives the fields that
  change, which merged over the config hold the new key.
- A step of a call runs from one await to the next; what the awaited seam did comes with it.
- A call begins with the secrets stored then; another may store before its next step.
-/

namespace Almyty.Connections

open Almyty.Lib List Option

/-- A key at the provider; the provider numbers them as it makes them. -/
abbrev Key := Nat

def merge (current : Fields) (next : List (String × String)) : Fields :=
  next.foldl (fun out e => if e.2 = "" then Assoc.erase out e.1 else Assoc.put out e.1 (.str e.2))
    current

structure Provider where
  key : String
  registered : Bool
  create : Bool
  revoke : Bool
  requires : List String
  /-- The key a config holds. -/
  keyOf : Fields → Key
  /-- The fields that change for a new key. -/
  mint : Fields → Key → List (String × String)
  keyOf_mint : ∀ secrets key, keyOf (merge secrets (mint secrets key)) = key

inductive KeyEvent
  | minted (key : Key)
  | validated (key : Key)
  | stored (key : Key)
  | revoked (key : Key)
  | revokeFailed (key : Key)
  deriving DecidableEq

inductive RotateOutcome
  | manual (reason : String)
  | rotated (previousRevoked : Bool)
  | failed (stage : String) (cleanedUp : Bool)
  deriving DecidableEq

inductive RotateStage
  | minting
  | validating (next : Fields)
  | cleaning (next : Fields)
  | persisting (next : Fields)
  | retiring (next : Fields)
  | finished (outcome : RotateOutcome)
  deriving DecidableEq

structure Rotation where
  secrets : Fields
  stage : RotateStage

structure KeyWorld where
  stored : Fields
  live : List Key
  nextKey : Key
  calls : List Rotation
  log : List KeyEvent

structure Ended where
  ok : Bool
  /-- The provider has no way to rotate this connection's shape. -/
  unsupported : Bool := false
  /-- A `persist` that throws has written all the same. -/
  wrote : Bool := false

namespace KeyWorld

def note (w : KeyWorld) (event : KeyEvent) : KeyWorld := { w with log := w.log ++ [event] }

def mint (w : KeyWorld) : KeyWorld :=
  { w with live := w.live ++ [w.nextKey], nextKey := w.nextKey + 1 }.note (.minted w.nextKey)

def revoke (w : KeyWorld) (key : Key) : KeyWorld :=
  { w with live := w.live.filter (· ≠ key) }.note (.revoked key)

/-- `persist` writes the secrets. -/
def store (w : KeyWorld) (next : Fields) (key : Key) : KeyWorld :=
  { w with stored := next }.note (.stored key)

end KeyWorld

section Service

variable (provider : Provider)

def missingFields (secrets : Fields) : List String :=
  provider.requires.filter fun f =>
    match secrets.lookup f with
    | some (.str s) => Js.trimmed s = ""
    | _ => true

def beginRotate (secrets : Fields) : RotateStage :=
  if !provider.registered then .finished (.manual (provider.key ++ " has no rotation provider"))
  else if !provider.create then .finished (.manual (provider.key ++ " has no key-creation API"))
  else
    let missing := missingFields provider secrets
    if missing ≠ [] then
      .finished (.manual ("rotation needs " ++ ", ".intercalate missing ++ " on the connection"))
    else .minting

def advanceRotate (w : KeyWorld) (secrets : Fields) (ended : Ended) :
    RotateStage → KeyWorld × RotateStage
  | .minting =>
    if ended.ok then (w.mint, .validating (merge secrets (provider.mint secrets w.nextKey)))
    else if ended.unsupported then (w, .finished (.manual "the provider cannot rotate this connection"))
    else (w, .finished (.failed "create" true))
  | .validating next =>
    if ended.ok then (w.note (.validated (provider.keyOf next)), .persisting next)
    else if provider.revoke then (w, .cleaning next)
    else (w, .finished (.failed "validate" true))
  | .cleaning next =>
    if ended.ok then (w.revoke (provider.keyOf next), .finished (.failed "validate" true))
    else (w.note (.revokeFailed (provider.keyOf next)), .finished (.failed "validate" false))
  | .persisting next =>
    if ended.ok then
      (w.store next (provider.keyOf next),
        if provider.revoke then .retiring next else .finished (.rotated false))
    else if ended.wrote then (w.store next (provider.keyOf next), .finished (.failed "persist" true))
    else (w, .finished (.failed "persist" true))
  | .retiring _ =>
    if ended.ok then (w.revoke (provider.keyOf secrets), .finished (.rotated true))
    else (w.note (.revokeFailed (provider.keyOf secrets)), .finished (.rotated false))
  | .finished outcome => (w, .finished outcome)

inductive RotateAction
  | rotate
  | advance (i : Nat) (ended : Ended)

def keyStep (w : KeyWorld) : RotateAction → KeyWorld
  | .rotate => { w with calls := w.calls ++ [⟨w.stored, beginRotate provider w.stored⟩] }
  | .advance i ended =>
    match w.calls[i]? with
    | none => w
    | some call =>
      let (w', stage) := advanceRotate provider w call.secrets ended call.stage
      { w' with calls := w'.calls.set i { call with stage := stage } }

def KeyWorld.start (secrets : Fields) (others : List Key) : KeyWorld where
  stored := secrets
  live := provider.keyOf secrets :: others
  nextKey := (provider.keyOf secrets :: others).foldr max 0 + 1
  calls := []
  log := [.stored (provider.keyOf secrets)]

end Service

/-! ## The claims about keys -/

section Claims

variable (provider : Provider)

/-- After the key was stored, another was checked and then stored. -/
def ReplacedIn (log : List KeyEvent) (key : Key) : Prop :=
  ∃ next, next ≠ key ∧ [.stored key, .validated next, .stored next].Sublist log

/-- No rotation's previous key is revoked before a checked replacement is stored. -/
def ReplacedFirst (w : KeyWorld) : Prop :=
  ∀ call ∈ w.calls, ∀ pre post, w.log = pre ++ .revoked (provider.keyOf call.secrets) :: post →
    ReplacedIn pre (provider.keyOf call.secrets)

/-- No call is in progress. -/
def Quiet (w : KeyWorld) : Prop := ∀ call ∈ w.calls, ∃ outcome, call.stage = .finished outcome

def StoredLive (w : KeyWorld) : Prop := Quiet w → provider.keyOf w.stored ∈ w.live

/-- Between rotations every key a rotation made is the stored one, or was revoked, or its revoke
call failed. -/
def NoneLeftOver (w : KeyWorld) : Prop :=
  Quiet w → ∀ key, .minted key ∈ w.log →
    key = provider.keyOf w.stored ∨ .revoked key ∈ w.log ∨ .revokeFailed key ∈ w.log

def tidy (w : KeyWorld) : RotateAction → Bool
  | .rotate => true
  | .advance i ended =>
    match w.calls[i]? with
    | some ⟨_, .validating _⟩ => ended.ok || provider.revoke
    | some ⟨secrets, .persisting _⟩ =>
      (ended.ok || ended.wrote) && provider.keyOf w.stored = provider.keyOf secrets &&
        (ended.ok && provider.revoke || !(w.log.contains (.minted (provider.keyOf secrets))))
    | _ => true

end Claims

/-! ## What holds however calls overlap -/

variable {provider : Provider} {w w' : KeyWorld}

def KeyEvent.key : KeyEvent → Key
  | .minted key | .validated key | .stored key | .revoked key | .revokeFailed key => key

section Holds

variable (provider : Provider)

def Rotation.newKey (call : Rotation) : Option Key :=
  match call.stage with
  | .validating next | .cleaning next | .persisting next => some (provider.keyOf next)
  | .minting | .retiring _ | .finished _ => none

structure CallSound (w : KeyWorld) (call : Rotation) : Prop where
  begun : .stored (provider.keyOf call.secrets) ∈ w.log
  held : ∀ key ∈ call.newKey provider, .minted key ∈ w.log ∧ .stored key ∉ w.log ∧
    .revoked key ∉ w.log ∧ key ∈ w.live
  checked : ∀ next, call.stage = .persisting next →
    [.stored (provider.keyOf call.secrets), .validated (provider.keyOf next)].Sublist w.log
  replaced : ∀ next, call.stage = .retiring next →
    provider.keyOf w.stored ≠ provider.keyOf call.secrets ∧
    ReplacedIn w.log (provider.keyOf call.secrets)

structure KeysSound (w : KeyWorld) : Prop where
  bounded : ∀ event ∈ w.log, event.key < w.nextKey
  current : .stored (provider.keyOf w.stored) ∈ w.log
  alive : provider.keyOf w.stored ∈ w.live
  order : ∀ pre key post, w.log = pre ++ .revoked key :: post → .stored key ∈ w.log →
    ReplacedIn pre key
  calls : ∀ (i : Nat) call, w.calls[i]? = some call → CallSound provider w call
  apart : ∀ (i j : Nat) call other key, w.calls[i]? = some call → w.calls[j]? = some other →
    key ∈ call.newKey provider → key ∈ other.newKey provider → i = j

theorem ReplacedIn.mono {log log' : List KeyEvent} {key : Key} (h : ReplacedIn log key)
    (hsub : log.Sublist log') : ReplacedIn log' key := by
  obtain ⟨next, hne, hlog⟩ := h
  exact ⟨next, hne, hlog.trans hsub⟩

structure Frame (w w' : KeyWorld) (call : Rotation) : Prop where
  log : w.log.Sublist w'.log
  stored : ∀ key ∈ call.newKey provider, .stored key ∈ w'.log → .stored key ∈ w.log
  revoked : ∀ key ∈ call.newKey provider, .revoked key ∈ w'.log → .revoked key ∈ w.log
  live : ∀ key ∈ call.newKey provider, key ∈ w.live → key ∈ w'.live
  old : provider.keyOf w.stored ≠ provider.keyOf call.secrets →
    provider.keyOf w'.stored ≠ provider.keyOf call.secrets

end Holds

variable {call : Rotation}

theorem CallSound.frame (h : CallSound provider w call) (hf : Frame provider w w' call) :
    CallSound provider w' call where
  begun := hf.log.subset h.begun
  held key hkey :=
    ⟨hf.log.subset (h.held key hkey).1, fun hs => (h.held key hkey).2.1 (hf.stored key hkey hs),
      fun hr => (h.held key hkey).2.2.1 (hf.revoked key hkey hr),
      hf.live key hkey (h.held key hkey).2.2.2⟩
  checked next hnext := (h.checked next hnext).trans hf.log
  replaced next hnext :=
    ⟨hf.old (h.replaced next hnext).1, (h.replaced next hnext).2.mono hf.log⟩

variable {i : Nat} {stage : RotateStage}

theorem KeysSound.advance (h : KeysSound provider w) (hi : w.calls[i]? = some call)
    (hcalls : w'.calls = w.calls)
    (hothers : ∀ j other, j ≠ i → w.calls[j]? = some other → Frame provider w w' other)
    (hself : CallSound provider w' { call with stage := stage })
    (hnew : ∀ key ∈ ({ call with stage := stage } : Rotation).newKey provider,
      key ∈ call.newKey provider ∨ .minted key ∉ w.log)
    (hbounded : ∀ event ∈ w'.log, event.key < w'.nextKey)
    (hcurrent : .stored (provider.keyOf w'.stored) ∈ w'.log)
    (halive : provider.keyOf w'.stored ∈ w'.live)
    (horder : ∀ pre key post, w'.log = pre ++ .revoked key :: post → .stored key ∈ w'.log →
      ReplacedIn pre key) :
    KeysSound provider { w' with calls := w'.calls.set i { call with stage := stage } } := by
  have hget (j : Nat) (other : Rotation)
      (hj : (w'.calls.set i { call with stage := stage })[j]? = some other) :
      (j = i ∧ other = { call with stage := stage }) ∨ (j ≠ i ∧ w.calls[j]? = some other) := by
    rw [hcalls] at hj
    exact Slots.getElem?_set_cases hj
  exact
    { bounded := hbounded, current := hcurrent, alive := halive, order := horder
      calls := fun j other hj => by
        rcases hget j other hj with ⟨-, rfl⟩ | ⟨hne, hj⟩
        · exact ⟨hself.begun, hself.held, hself.checked, hself.replaced⟩
        · have hframed := (h.calls j other hj).frame (hothers j other hne hj)
          exact ⟨hframed.begun, hframed.held, hframed.checked, hframed.replaced⟩
      apart := fun j k a b key => by
        -- a key of another call is not the one this call holds now
        have halone : Slots.Alone (fun call : Rotation => key ∈ call.newKey provider) w.calls :=
          fun i j call other => h.apart i j call other key
        rw [hcalls]
        exact halone.set hi (fun hkey => (hnew key hkey).imp_right fun hminted other hother hheld =>
          let ⟨j, hj⟩ := List.getElem?_of_mem hother
          hminted ((h.calls j other hj).held key hheld).1) j k a b }

theorem order_note (h : KeysSound provider w) {event : KeyEvent}
    (hrevoked : ∀ key, event = .revoked key → .stored key ∈ w.log → ReplacedIn w.log key)
    (hstored : ∀ key, event = .stored key → .revoked key ∉ w.log) :
    ∀ pre key post, w.log ++ [event] = pre ++ .revoked key :: post →
      .stored key ∈ w.log ++ [event] →
      ReplacedIn pre key := by
  intro pre key post hlog hmem
  have hlast (hpre : pre = w.log) (hevent : event = .revoked key) : ReplacedIn pre key := by
    subst hpre hevent
    exact hrevoked key rfl (by simpa using hmem)
  rcases append_eq_append_iff.mp hlog with ⟨as, hpre, htail⟩ | ⟨bs, hpre, htail⟩
  · cases as with
    | nil => exact hlast (by simpa using hpre) (by simpa using (List.cons.inj htail).1)
    | cons a as => simp at htail
  · cases bs with
    | nil => exact hlast (by simpa using hpre.symm) (by simpa using (List.cons.inj htail).1.symm)
    | cons b bs =>
      obtain ⟨rfl, -⟩ := List.cons.inj htail
      refine h.order pre key bs hpre ?_
      rcases mem_append.mp hmem with hmem | hmem
      · exact hmem
      · have hevent := mem_singleton.mp hmem
        exact absurd (hpre ▸ by simp) (hstored key hevent.symm)

theorem frame_of_event {event : KeyEvent} (hlog : w'.log = w.log ++ [event])
    (hstored : ∀ key ∈ call.newKey provider, event ≠ .stored key)
    (hrevoked : ∀ key ∈ call.newKey provider, event ≠ .revoked key)
    (hlive : ∀ key ∈ call.newKey provider, key ∈ w.live → key ∈ w'.live)
    (hold : provider.keyOf w.stored ≠ provider.keyOf call.secrets →
      provider.keyOf w'.stored ≠ provider.keyOf call.secrets) : Frame provider w w' call where
  log := hlog ▸ sublist_append_left _ _
  stored key hkey hmem := by
    rw [hlog, mem_append, mem_singleton] at hmem
    exact hmem.resolve_right fun he => hstored key hkey he.symm
  revoked key hkey hmem := by
    rw [hlog, mem_append, mem_singleton] at hmem
    exact hmem.resolve_right fun he => hrevoked key hkey he.symm
  live := hlive
  old := hold

theorem bounded_note (h : KeysSound provider w) {event : KeyEvent} (hevent : event.key < w.nextKey) :
    ∀ e ∈ w.log ++ [event], e.key < w.nextKey := by
  intro e he
  rcases mem_append.mp he with he | he
  · exact h.bounded e he
  · exact mem_singleton.mp he ▸ hevent

theorem KeysSound.begun_lt (h : KeysSound provider w) (hi : w.calls[i]? = some call) :
    provider.keyOf call.secrets < w.nextKey :=
  h.bounded _ (h.calls i call hi).begun

theorem KeysSound.minted_lt {key : Key} (h : KeysSound provider w) (hminted : .minted key ∈ w.log) :
    key < w.nextKey :=
  h.bounded _ hminted

theorem KeysSound.newKey_ne {key stored : Key} (h : KeysSound provider w)
    (hi : w.calls[i]? = some call) (hkey : key ∈ call.newKey provider)
    (hstored : .stored stored ∈ w.log) : stored ≠ key := by
  intro heq
  exact ((h.calls i call hi).held key hkey).2.1 (heq ▸ hstored)

def KeyEvent.Plain : KeyEvent → Prop
  | .minted _ | .validated _ | .revokeFailed _ => True
  | .stored _ | .revoked _ => False

theorem KeyEvent.Plain.ne_stored {event : KeyEvent} (h : event.Plain) (key : Key) :
    event ≠ .stored key := by
  intro he
  rw [he] at h
  exact h

theorem KeyEvent.Plain.ne_revoked {event : KeyEvent} (h : event.Plain) (key : Key) :
    event ≠ .revoked key := by
  intro he
  rw [he] at h
  exact h

theorem KeysSound.idle (h : KeysSound provider w) (hi : w.calls[i]? = some call)
    (hself : CallSound provider w { call with stage := stage })
    (hnew : ∀ key ∈ ({ call with stage := stage } : Rotation).newKey provider,
      key ∈ call.newKey provider) :
    KeysSound provider { w with calls := w.calls.set i { call with stage := stage } } :=
  h.advance hi rfl
    (fun _ _ _ _ => ⟨List.Sublist.refl _, fun _ _ h => h, fun _ _ h => h, fun _ _ h => h, fun h => h⟩)
    hself (fun key hkey => .inl (hnew key hkey)) h.bounded h.current h.alive h.order

theorem KeysSound.noted {event : KeyEvent} (h : KeysSound provider w) (hi : w.calls[i]? = some call)
    (hplain : event.Plain) (hbound : event.key < w.nextKey)
    (hself : CallSound provider (w.note event) { call with stage := stage })
    (hnew : ∀ key ∈ ({ call with stage := stage } : Rotation).newKey provider,
      key ∈ call.newKey provider) :
    KeysSound provider
      { w.note event with calls := (w.note event).calls.set i { call with stage := stage } } :=
  h.advance hi rfl
    (fun _ _ _ _ => frame_of_event rfl (fun key _ => hplain.ne_stored key)
      (fun key _ => hplain.ne_revoked key) (fun _ _ hl => hl) (fun ho => ho))
    hself (fun key hkey => .inl (hnew key hkey)) (bounded_note h hbound)
    (mem_append_left _ h.current) h.alive
    (order_note h (fun key he => absurd he (hplain.ne_revoked key))
      (fun key he => absurd he (hplain.ne_stored key)))

theorem KeysSound.revoke {key : Key} (h : KeysSound provider w) (hi : w.calls[i]? = some call)
    (hbound : key < w.nextKey) (hkey : provider.keyOf w.stored ≠ key)
    (hothers : ∀ j other, j ≠ i → w.calls[j]? = some other → key ∉ other.newKey provider)
    (horder : .stored key ∈ w.log → ReplacedIn w.log key)
    (hself : CallSound provider (w.revoke key) { call with stage := stage })
    (hnew : ∀ key' ∈ ({ call with stage := stage } : Rotation).newKey provider,
      key' ∈ call.newKey provider) :
    KeysSound provider
      { w.revoke key with calls := (w.revoke key).calls.set i { call with stage := stage } } := by
  refine h.advance hi rfl (fun j other hne hj => ?_) hself (fun key hkey => .inl (hnew key hkey))
    (bounded_note h hbound) (mem_append_left _ h.current) ?_ ?_
  · refine frame_of_event rfl (fun _ _ he => by cases he) ?_ ?_ (fun ho => ho)
    · intro key' hkey' he
      cases he
      exact hothers j other hne hj hkey'
    · intro key' hkey' hlive
      refine mem_filter.mpr ⟨hlive, decide_eq_true fun he => ?_⟩
      exact hothers j other hne hj (he ▸ hkey')
  · exact mem_filter.mpr ⟨h.alive, decide_eq_true hkey⟩
  · refine order_note h (fun key' he hstored => ?_) (fun key' he => by cases he)
    cases he
    exact horder hstored

theorem KeysSound.store {next : Fields} (h : KeysSound provider w) (hi : w.calls[i]? = some call)
    (hheld : provider.keyOf next ∈ call.newKey provider)
    (hself : CallSound provider (w.store next (provider.keyOf next)) { call with stage := stage })
    (hnew : ∀ key ∈ ({ call with stage := stage } : Rotation).newKey provider,
      key ∈ call.newKey provider) :
    KeysSound provider
      { w.store next (provider.keyOf next) with
        calls := (w.store next (provider.keyOf next)).calls.set i { call with stage := stage } } := by
  obtain ⟨hminted, -, hrevoked, hlive⟩ := (h.calls i call hi).held _ hheld
  refine h.advance hi rfl (fun j other hne hj => ?_) hself (fun key hkey => .inl (hnew key hkey))
    (bounded_note h (h.minted_lt hminted)) ?_ hlive ?_
  · refine frame_of_event rfl ?_ (fun _ _ he => by cases he) (fun _ _ hl => hl) ?_
    · intro key hkey he
      cases he
      exact hne (h.apart j i other call _ hj hi hkey hheld)
    · intro _ he
      exact h.newKey_ne hi hheld (h.calls j other hj).begun he.symm
  · exact mem_append_right _ (mem_singleton.mpr rfl)
  · refine order_note h (fun _ he => by cases he) (fun key he => ?_)
    cases he
    exact hrevoked

theorem KeysSound.mint (h : KeysSound provider w) (hi : w.calls[i]? = some call)
    (hself : CallSound provider w.mint { call with stage := stage })
    (hnew : ∀ key ∈ ({ call with stage := stage } : Rotation).newKey provider, key = w.nextKey) :
    KeysSound provider
      { w.mint with calls := w.mint.calls.set i { call with stage := stage } } := by
  have hfresh : KeyEvent.minted w.nextKey ∉ w.log := fun hm => absurd (h.bounded _ hm) (lt_irrefl _)
  refine h.advance hi rfl (fun j other hne hj => ?_) hself
    (fun key hkey => .inr (hnew key hkey ▸ hfresh)) ?_ (mem_append_left _ h.current)
    (mem_append_left _ h.alive) ?_
  · exact frame_of_event rfl (fun _ _ he => by cases he) (fun _ _ he => by cases he)
      (fun _ _ hl => mem_append_left _ hl) (fun ho => ho)
  · intro event hevent
    rcases mem_append.mp hevent with hevent | hevent
    · exact Nat.lt_succ_of_lt (h.bounded event hevent)
    · exact mem_singleton.mp hevent ▸ Nat.lt_succ_self _
  · exact order_note h (fun _ he => by cases he) (fun _ he => by cases he)

theorem beginRotate_cases (provider : Provider) (secrets : Fields) :
    beginRotate provider secrets = .minting ∨
      ∃ outcome, beginRotate provider secrets = .finished outcome := by
  simp only [beginRotate]
  split
  · exact .inr ⟨_, rfl⟩
  · split
    · exact .inr ⟨_, rfl⟩
    · split
      · exact .inr ⟨_, rfl⟩
      · exact .inl rfl

theorem callSound_finished {secrets : Fields} {outcome : RotateOutcome}
    (h : .stored (provider.keyOf secrets) ∈ w.log) :
    CallSound provider w ⟨secrets, .finished outcome⟩ where
  begun := h
  held _ hkey := by cases hkey
  checked := nofun
  replaced := nofun

theorem KeysSound.step (h : KeysSound provider w) (act : RotateAction) :
    KeysSound provider (keyStep provider w act) := by
  cases act with
  | rotate =>
    have hget (i : Nat) (call : Rotation)
        (hi : (w.calls ++ [⟨w.stored, beginRotate provider w.stored⟩])[i]? = some call) :
        w.calls[i]? = some call ∨ call = ⟨w.stored, beginRotate provider w.stored⟩ := by
      rcases Slots.getElem?_append_singleton_cases hi with ⟨-, heq⟩ | hi
      · exact .inr heq
      · exact .inl hi
    have hbegun := beginRotate_cases provider w.stored
    have hnone : Rotation.newKey provider ⟨w.stored, beginRotate provider w.stored⟩ = none := by
      rcases hbegun with hb | ⟨outcome, hb⟩ <;> simp [Rotation.newKey, hb]
    exact
      { bounded := h.bounded, current := h.current, alive := h.alive, order := h.order
        calls := fun i call hi => by
          rcases hget i call hi with hi | rfl
          · have hcall := h.calls i call hi
            exact ⟨hcall.begun, hcall.held, hcall.checked, hcall.replaced⟩
          · refine ⟨h.current, ?_, ?_, ?_⟩
            · rw [hnone]
              intro key hkey
              cases hkey
            · rcases hbegun with hb | ⟨outcome, hb⟩ <;> simp [hb]
            · rcases hbegun with hb | ⟨outcome, hb⟩ <;> simp [hb]
        apart := fun i j a b key => by
          have halone : Slots.Alone (fun call : Rotation => key ∈ call.newKey provider) w.calls :=
            fun i j call other => h.apart i j call other key
          exact halone.append_singleton (by simp [hnone]) i j a b }
  | advance i ended =>
    simp only [keyStep]
    cases hi : w.calls[i]? with
    | none => exact h
    | some call =>
      have hcall := h.calls i call hi
      obtain ⟨secrets, stage'⟩ := call
      have hnothing (stage : RotateStage)
          (hnone : Rotation.newKey provider ⟨secrets, stage⟩ = none) :
          ∀ key ∈ Rotation.newKey provider ⟨secrets, stage⟩,
            key ∈ Rotation.newKey provider ⟨secrets, stage'⟩ := by
        intro key hkey
        simp [hnone] at hkey
      have hover (outcome : RotateOutcome) : CallSound provider w ⟨secrets, .finished outcome⟩ :=
        callSound_finished hcall.begun
      cases stage' with
      | minting =>
        simp only [advanceRotate]
        split
        · refine h.mint hi ⟨mem_append_left _ hcall.begun, ?_, nofun, nofun⟩ ?_
          · intro key hkey
            have heq : provider.keyOf (merge secrets (provider.mint secrets w.nextKey)) = key :=
              some.inj hkey
            rw [provider.keyOf_mint] at heq
            subst heq
            refine ⟨mem_append_right _ (mem_singleton.mpr rfl), ?_, ?_,
              mem_append_right _ (mem_singleton.mpr rfl)⟩ <;>
            · intro hmem
              rcases mem_append.mp hmem with hmem | hmem
              · exact absurd (h.bounded _ hmem) (lt_irrefl _)
              · exact absurd (mem_singleton.mp hmem) nofun
          · intro key hkey
            exact (some.inj hkey).symm.trans (provider.keyOf_mint _ _)
        · split <;> exact h.idle hi (hover _) (hnothing _ rfl)
      | validating next =>
        simp only [advanceRotate]
        split
        · refine h.noted hi trivial (h.minted_lt (hcall.held _ rfl).1)
            ⟨mem_append_left _ hcall.begun, ?_, ?_, nofun⟩ (fun _ hkey => hkey)
          · intro key hkey
            obtain ⟨hminted, hstored, hrevoked, hlive⟩ := hcall.held key hkey
            exact ⟨mem_append_left _ hminted, by simpa [KeyWorld.note] using hstored,
              by simpa [KeyWorld.note] using hrevoked, hlive⟩
          · intro next' hnext
            cases hnext
            exact (singleton_sublist.mpr hcall.begun).append (List.Sublist.refl _)
        · split
          · exact h.idle hi ⟨hcall.begun, hcall.held, nofun, nofun⟩ (fun _ hkey => hkey)
          · exact h.idle hi (hover _) (hnothing _ rfl)
      | cleaning next =>
        have hheld := hcall.held _ rfl
        simp only [advanceRotate]
        split
        · refine h.revoke hi (h.minted_lt hheld.1) (h.newKey_ne hi rfl h.current) ?_ ?_
            (callSound_finished (mem_append_left _ hcall.begun)) (hnothing _ rfl)
          · intro j other hne hj hkey
            exact hne (h.apart j i other _ _ hj hi hkey rfl)
          · intro hstored
            exact absurd hstored hheld.2.1
        · exact h.noted hi trivial (h.minted_lt hheld.1)
            (callSound_finished (mem_append_left _ hcall.begun)) (hnothing _ rfl)
      | persisting next =>
        have hne := h.newKey_ne hi rfl hcall.begun
        have hretiring : CallSound provider (w.store next (provider.keyOf next))
            ⟨secrets, .retiring next⟩ := by
          refine ⟨mem_append_left _ hcall.begun, fun _ hkey => (by cases hkey), nofun, ?_⟩
          intro next' hnext
          cases hnext
          exact ⟨hne.symm, _, hne.symm, (hcall.checked next rfl).append (List.Sublist.refl _)⟩
        simp only [advanceRotate]
        split
        · split
          · exact h.store hi rfl hretiring (hnothing _ rfl)
          · exact h.store hi rfl (callSound_finished (mem_append_left _ hcall.begun))
              (hnothing _ rfl)
        · split
          · exact h.store hi rfl (callSound_finished (mem_append_left _ hcall.begun))
              (hnothing _ rfl)
          · exact h.idle hi (hover _) (hnothing _ rfl)
      | retiring next =>
        obtain ⟨hstored, hreplaced⟩ := hcall.replaced next rfl
        simp only [advanceRotate]
        split
        · refine h.revoke hi (h.begun_lt hi) hstored ?_ (fun _ => hreplaced)
            (callSound_finished (mem_append_left _ hcall.begun)) (hnothing _ rfl)
          intro j other _ hj hkey
          exact h.newKey_ne hj hkey hcall.begun rfl
        · exact h.noted hi trivial (h.begun_lt hi)
            (callSound_finished (mem_append_left _ hcall.begun)) (hnothing _ rfl)
      | finished outcome => exact h.idle hi (hover _) (hnothing _ rfl)

theorem keysSound_start (secrets : Fields) (others : List Key) :
    KeysSound provider (KeyWorld.start provider secrets others) where
  bounded event hevent := by
    rw [mem_singleton.mp hevent]
    exact Nat.lt_succ_of_le (le_max_left _ _)
  current := mem_singleton.mpr rfl
  alive := mem_cons_self
  order pre key post hlog _ := by
    have hmem : KeyEvent.revoked key ∈ (KeyWorld.start provider secrets others).log :=
      hlog ▸ mem_append_right _ mem_cons_self
    exact absurd (mem_singleton.mp hmem) nofun
  calls _ _ hi := by simp [KeyWorld.start] at hi
  apart _ _ _ _ _ hi := by simp [KeyWorld.start] at hi

/-! ## What no step leaves over -/

section Accounted

variable (provider : Provider)

def Rotation.owes (call : Rotation) : Option Key :=
  match call.stage with
  | .retiring _ => some (provider.keyOf call.secrets)
  | _ => call.newKey provider

/-- Every key a rotation made is stored, was seen to, or a call is to see to it. -/
def Accounted (w : KeyWorld) : Prop :=
  ∀ key, .minted key ∈ w.log →
    key = provider.keyOf w.stored ∨ .revoked key ∈ w.log ∨ .revokeFailed key ∈ w.log ∨
      ∃ call ∈ w.calls, key ∈ call.owes provider

end Accounted

theorem Accounted.noneLeftOver (h : Accounted provider w) : NoneLeftOver provider w := by
  intro hquiet key hminted
  rcases h key hminted with hstored | hrevoked | hfailed | ⟨call, hcall, howes⟩
  · exact .inl hstored
  · exact .inr (.inl hrevoked)
  · exact .inr (.inr hfailed)
  · obtain ⟨outcome, hover⟩ := hquiet call hcall
    simp [Rotation.owes, Rotation.newKey, hover] at howes

theorem Accounted.advance (h : Accounted provider w) (hi : w.calls[i]? = some call)
    (hcalls : w'.calls = w.calls) (hlog : ∀ event ∈ w.log, event ∈ w'.log)
    (hminted : ∀ key, .minted key ∈ w'.log → .minted key ∈ w.log ∨
      key ∈ Rotation.owes provider { call with stage := stage })
    (hstored : .minted (provider.keyOf w.stored) ∈ w.log →
      provider.keyOf w.stored = provider.keyOf w'.stored ∨
      provider.keyOf w.stored ∈ Rotation.owes provider { call with stage := stage })
    (howed : ∀ key ∈ call.owes provider, key = provider.keyOf w'.stored ∨
      .revoked key ∈ w'.log ∨ .revokeFailed key ∈ w'.log ∨
      key ∈ Rotation.owes provider { call with stage := stage }) :
    Accounted provider { w' with calls := w'.calls.set i { call with stage := stage } } := by
  have hlt : i < w'.calls.length := by
    rw [hcalls]
    exact (List.getElem?_eq_some_iff.mp hi).1
  have hself : { call with stage := stage } ∈ w'.calls.set i { call with stage := stage } :=
    mem_set hlt _
  intro key hkey
  rcases hminted key hkey with hkey | howes
  · rcases h key hkey with rfl | hrevoked | hfailed | ⟨other, hother, howes⟩
    · rcases hstored hkey with heq | howes
      · exact .inl heq
      · exact .inr (.inr (.inr ⟨_, hself, howes⟩))
    · exact .inr (.inl (hlog _ hrevoked))
    · exact .inr (.inr (.inl (hlog _ hfailed)))
    · obtain ⟨j, hj⟩ := List.getElem?_of_mem hother
      by_cases hji : j = i
      · subst hji
        obtain rfl : call = other := some.inj (hi.symm.trans hj)
        rcases howed key howes with heq | hrevoked | hfailed | howes
        · exact .inl heq
        · exact .inr (.inl hrevoked)
        · exact .inr (.inr (.inl hfailed))
        · exact .inr (.inr (.inr ⟨_, hself, howes⟩))
      · refine .inr (.inr (.inr ⟨other, List.mem_of_getElem? (i := j) ?_, howes⟩))
        rw [List.getElem?_set_ne (Ne.symm hji), hcalls, hj]
  · exact .inr (.inr (.inr ⟨_, hself, howes⟩))

theorem Accounted.idle (h : Accounted provider w) (hi : w.calls[i]? = some call)
    (howed : ∀ key ∈ call.owes provider, key ∈ Rotation.owes provider { call with stage := stage }) :
    Accounted provider { w with calls := w.calls.set i { call with stage := stage } } :=
  h.advance hi rfl (fun _ hevent => hevent) (fun _ hkey => .inl hkey) (fun _ => .inl rfl)
    (fun key hkey => .inr (.inr (.inr (howed key hkey))))

theorem Accounted.store {secrets next : Fields} (h : Accounted provider w)
    (hi : w.calls[i]? = some ⟨secrets, .persisting next⟩)
    (hsame : provider.keyOf w.stored = provider.keyOf secrets)
    (hretire : stage = .retiring next ∨ .minted (provider.keyOf secrets) ∉ w.log) :
    Accounted provider
      { w.store next (provider.keyOf next) with
        calls := (w.store next (provider.keyOf next)).calls.set i ⟨secrets, stage⟩ } := by
  refine h.advance hi rfl (fun _ hevent => mem_append_left _ hevent)
    (fun _ hkey => .inl ?_) (fun hminted => .inr ?_) (fun key hkey => .inl ?_)
  · simpa [KeyWorld.note, KeyWorld.store] using hkey
  · rw [hsame] at hminted ⊢
    obtain rfl := hretire.resolve_right (fun h => h hminted)
    exact rfl
  · exact (some.inj hkey).symm

theorem Accounted.step (h : Accounted provider w) {act : RotateAction}
    (htidy : tidy provider w act = true) : Accounted provider (keyStep provider w act) := by
  cases act with
  | rotate =>
    intro key hkey
    rcases h key hkey with hstored | hrevoked | hfailed | ⟨call, hcall, howes⟩
    · exact .inl hstored
    · exact .inr (.inl hrevoked)
    · exact .inr (.inr (.inl hfailed))
    · exact .inr (.inr (.inr ⟨call, mem_append_left _ hcall, howes⟩))
  | advance i ended =>
    simp only [keyStep]
    simp only [tidy] at htidy
    cases hi : w.calls[i]? with
    | none => exact h
    | some call =>
      obtain ⟨secrets, stage⟩ := call
      rw [hi] at htidy
      have hnothing {old : RotateStage} (hnone : Rotation.owes provider ⟨secrets, old⟩ = none)
          (P : Key → Prop) : ∀ key ∈ Rotation.owes provider ⟨secrets, old⟩, P key := by
        intro key hkey
        simp [hnone] at hkey
      cases stage with
      | minting =>
        simp only [advanceRotate]
        split
        · refine h.advance hi rfl (fun _ hevent => mem_append_left _ hevent) ?_
            (fun _ => .inl rfl) (hnothing rfl _)
          intro key hkey
          rcases mem_append.mp hkey with hkey | hkey
          · exact .inl hkey
          · cases mem_singleton.mp hkey
            exact .inr (congrArg some (provider.keyOf_mint _ _))
        · split <;> exact h.idle hi (hnothing rfl _)
      | validating next =>
        simp only [advanceRotate]
        split
        · exact h.advance hi rfl (fun _ hevent => mem_append_left _ hevent)
            (fun _ hkey => .inl (by simpa [KeyWorld.note] using hkey)) (fun _ => .inl rfl)
            (fun _ hkey => .inr (.inr (.inr hkey)))
        · split
          · exact h.idle hi (fun _ hkey => hkey)
          · simp_all
      | cleaning | retiring =>
        simp only [advanceRotate]
        split <;>
        · refine h.advance hi rfl (fun _ hevent => mem_append_left _ hevent)
            (fun _ hkey => .inl ?_) (fun _ => .inl rfl) (fun key hkey => ?_)
          · simpa [KeyWorld.note, KeyWorld.revoke] using hkey
          · cases some.inj hkey
            simp [KeyWorld.note, KeyWorld.revoke]
      | persisting next =>
        simp only [advanceRotate]
        simp only [Bool.and_eq_true, Bool.or_eq_true, decide_eq_true_eq, Bool.not_eq_true',
          contains_eq_mem, decide_eq_false_iff_not] at htidy
        obtain ⟨⟨hwrote, hsame⟩, hretire⟩ := htidy
        split
        next hok =>
          refine h.store hi hsame ?_
          rcases hretire with ⟨-, hrevoke⟩ | hminted
          · exact .inl (if_pos hrevoke)
          · exact .inr hminted
        next hok =>
          rw [if_pos (hwrote.resolve_left hok)]
          exact h.store hi hsame (hretire.imp_left fun hr => absurd hr.1 hok)
      | finished outcome => exact h.idle hi (hnothing rfl _)

theorem accounted_start (secrets : Fields) (others : List Key) :
    Accounted provider (KeyWorld.start provider secrets others) := by
  intro key hkey
  cases mem_singleton.mp hkey

theorem rotation_keeps_one_key (provider : Provider) (secrets : Fields) (others : List Key)
    (acts : List RotateAction) :
    let start := KeyWorld.start provider secrets others
    let ended := Steps.run (keyStep provider) start acts
    ReplacedFirst provider ended ∧ StoredLive provider ended ∧
      (Steps.Along (keyStep provider) (tidy provider · · = true) start acts →
        NoneLeftOver provider ended) := by
  intro start ended
  have hrun : Steps.Along (keyStep provider) (fun _ _ => True) start acts :=
    Steps.along_iff.mpr fun _ _ _ _ => trivial
  have hsound : KeysSound provider ended :=
    Steps.run_invariant (KeysSound provider) (fun _ act h _ => h.step act)
      (keysSound_start secrets others) hrun
  refine ⟨?_, fun _ => hsound.alive, fun htidy => ?_⟩
  · intro call hcall pre post hlog
    obtain ⟨i, hi⟩ := List.getElem?_of_mem hcall
    exact hsound.order pre _ post hlog (hsound.calls i call hi).begun
  · have haccounted : Accounted provider ended :=
      Steps.run_invariant (Accounted provider) (fun _ _ h ht => h.step ht)
        (accounted_start secrets others) htidy
    exact haccounted.noneLeftOver

section

private def keyProvider (canRevoke : Bool) : Provider where
  key := "numbered"
  registered := true
  create := true
  revoke := canRevoke
  requires := []
  keyOf secrets := match secrets.lookup "key" with
    | some (.str s) => s.length
    | _ => 0
  mint _ key := [("key", String.ofList (List.replicate key 'k'))]
  keyOf_mint secrets key := by
    simp only [merge, List.foldl]
    cases key with
    | zero => simp [Assoc.lookup_erase]
    | succ key =>
      simp [Assoc.lookup_put, replicate_succ]
      exact Nat.add_comm 1 key

/-- Calls `i` and on, each step of each ending well. -/
private def goOn (calls : List Nat) : List RotateAction := calls.map (.advance · { ok := true })

/-- Two rotations, one after the other. -/
theorem rotation_keeps_one_key_in_turn :
    NoneLeftOver (keyProvider true) (Steps.run (keyStep (keyProvider true))
      (KeyWorld.start (keyProvider true) [("key", .str "k")] [])
      ([.rotate] ++ goOn [0, 0, 0, 0] ++ [.rotate] ++ goOn [1, 1, 1, 1])) :=
  (rotation_keeps_one_key (keyProvider true) _ _ _).2.2 (by decide +kernel)

/-- Two rotations overlap: each revokes the key both started from, and the key stored first is left
over. -/
theorem overlapping_rotations_leave_a_key :
    ¬NoneLeftOver (keyProvider true) (Steps.run (keyStep (keyProvider true))
      (KeyWorld.start (keyProvider true) [("key", .str "k")] [])
      ([.rotate, .rotate] ++ goOn [0, 1, 0, 1, 0, 1, 0, 1])) := by
  intro h
  have hquiet : Quiet (Steps.run (keyStep (keyProvider true))
      (KeyWorld.start (keyProvider true) [("key", .str "k")] [])
      ([.rotate, .rotate] ++ goOn [0, 1, 0, 1, 0, 1, 0, 1])) := by
    have hover : ∀ call ∈ (Steps.run (keyStep (keyProvider true))
        (KeyWorld.start (keyProvider true) [("key", .str "k")] [])
        ([.rotate, .rotate] ++ goOn [0, 1, 0, 1, 0, 1, 0, 1])).calls,
        call.stage = .finished (.rotated true) := by
      decide +kernel
    exact fun call hcall => ⟨_, hover call hcall⟩
  exact absurd (h hquiet 2 (by decide +kernel)) (by decide +kernel)

end

end Almyty.Connections
