import Almyty.Kms.Envelope
import Almyty.Lib.Steps

/-!
# Keys that are rotated while values are sealed: `kms-provisioning.service.ts`

Attaching, rotating and switching the envelope path each read the organization's row, and save it
whole after a call to KMS. Replicas seal values under the row's active key meanwhile, each from a
cache of its own.

`always_readable` says that a sealed value stays readable: the key it names is active or retired,
and any replica opens it, at any time, provided that no operation saves a row whose keys have
changed since it read them. A save that does (`upToDate` fails) puts back the keys that were read,
and takes with them the key that was installed in between: `second_rotation_loses_key` has two
rotations of one key, and a value that nobody can open.

Mirroring notes:
- A step is a query or a call to KMS and the code up to the next one. A call of KMS can fail, a
  rotation is dropped then; what KMS answers is a function of CMK, region and blob.
- `minted` is what KMS has wrapped, in no field of the source: wrapped blobs have distinct key ids.
-/

namespace Almyty.Kms

open Almyty.Lib

inductive Change
  | attach (cmkArn : String) (awsRegion : Option String) (enabled : Option Bool)
  | rotate (cmkArn awsRegion : Option String)
  | enable (enabled : Bool)

structure Provision where
  replica : Nat
  read : Option OrgKmsConfig
  change : Change
  wrapped : Option String := none

inductive Stage
  | reading (attempt : Nat)
  | unwrapping (ref : WrappedDekRef) (attempt : Nat)
  | confirming (ref : WrappedDekRef) (dek : Dek) (attempt : Nat)
  /-- With the active key, or on the platform's path. -/
  | sealing (active : Option ActiveDek)

structure SealCall where
  replica : Nat
  plaintext : String
  stage : Stage

structure StoredValue where
  plaintext : String
  text : List Char

structure KeyRead where
  replica : Nat
  refs : List WrappedDekRef
  value : Option StoredValue

structure World where
  row : Option OrgKmsConfig := none
  caches : Nat → DekCache := fun _ => []
  provisions : List Provision := []
  seals : List SealCall := []
  reads : List KeyRead := []
  values : List StoredValue := []
  minted : List WrappedDekRef := []

section Service

variable (c : Crypto)

/-! ## Provisioning -/

/-- The guards of the three operations. -/
def Change.admitted (row : Option OrgKmsConfig) : Change → Bool
  | .attach .. => (row.bind fun config => filled config.wrappedDek).isNone
  | .rotate .. => (row.bind activeRef).isSome
  | .enable _ => row.isSome

/-- The CMK and the region that a fresh key is wrapped under. -/
def Provision.target (p : Provision) : Option (String × Option String) :=
  match p.change, p.read with
  | .attach cmkArn awsRegion _, _ => some (cmkArn, awsRegion)
  | .rotate cmkArn awsRegion, some config =>
    (cmkArn.or config.cmkArn).map fun targetArn =>
      -- a new CMK has a region of its own
      (targetArn, if (filled cmkArn).isSome then awsRegion else awsRegion.or config.awsRegion)
  | _, _ => none

def attached (existing : Option OrgKmsConfig) (cmkArn : String) (awsRegion : Option String)
    (enabled : Option Bool) (wrapped : String) : OrgKmsConfig :=
  { existing.getD {} with
    cmkArn := some cmkArn
    awsRegion := awsRegion
    wrappedDek := some wrapped
    enabled := enabled.getD true }

def retiring (ref : WrappedDekRef) (retiredAt : String) : RetiredDek :=
  { keyId := String.ofList (ref.keyId c)
    wrappedDek := ref.wrappedDek
    cmkArn := ref.cmkArn
    awsRegion := ref.awsRegion
    retiredAt := retiredAt }

def rotated (config : OrgKmsConfig) (ref : WrappedDekRef) (target : String × Option String)
    (wrapped retiredAt : String) : OrgKmsConfig :=
  { config with
    retiredDeks :=
      if config.retiredDeks.any fun r => keyIdOf c r.wrappedDek = ref.keyId c then
        config.retiredDeks
      else config.retiredDeks ++ [retiring c ref retiredAt]
    cmkArn := some target.1
    awsRegion := target.2
    wrappedDek := some wrapped }

/-- What an operation saves, once it has got so far. -/
def Provision.entity (p : Provision) (retiredAt : String) : Option OrgKmsConfig :=
  match p.change, p.read, p.wrapped with
  | .attach cmkArn awsRegion enabled, existing, some wrapped =>
    some (attached existing cmkArn awsRegion enabled wrapped)
  | .rotate .., some config, some wrapped =>
    match activeRef config, p.target with
    | some ref, some target => some (rotated c config ref target wrapped retiredAt)
    | _, _ => none
  | .enable enabled, some config, _ => some { config with enabled }
  | _, _, _ => none

namespace World

/-- The read, and the guard. -/
def provision (w : World) (replica : Nat) (change : Change) : World :=
  if change.admitted w.row then
    { w with provisions := w.provisions ++ [{ replica, read := w.row, change }] }
  else w

def attachCmk (w : World) (replica : Nat) (cmkArn : String) (awsRegion : Option String)
    (enabled : Option Bool) : World :=
  w.provision replica (.attach cmkArn awsRegion enabled)

def rotateCmk (w : World) (replica : Nat) (cmkArn awsRegion : Option String) : World :=
  w.provision replica (.rotate cmkArn awsRegion)

def setEnabled (w : World) (replica : Nat) (enabled : Bool) : World :=
  w.provision replica (.enable enabled)

def wrapFreshDek (w : World) (i : Nat) (blob : String) : World :=
  match w.provisions[i]? with
  | none => w
  | some p =>
    match p.wrapped, p.target with
    | none, some (cmkArn, awsRegion) =>
      { w with
        provisions := w.provisions.set i { p with wrapped := some blob }
        minted := w.minted ++ [⟨blob, cmkArn, awsRegion⟩] }
    | _, _ => w

/-- `repo.save` writes the entity over the row, or inserts it, and the replica's cache is dropped. -/
def save (w : World) (i : Nat) (retiredAt : String) : World :=
  match w.provisions[i]? with
  | none => w
  | some p =>
    match p.entity c retiredAt with
    | none => w
    | some config =>
      -- an entity that was created is inserted, which the unique index may refuse
      if p.read.isNone && w.row.isSome then { w with provisions := w.provisions.eraseIdx i }
      else
        { w with
          row := some config
          caches := Function.update w.caches p.replica []
          provisions := w.provisions.eraseIdx i }

/-! ## Sealing -/

def setStage (w : World) (i : Nat) (call : SealCall) (stage : Stage) : World :=
  { w with seals := w.seals.set i { call with stage } }

def encryptForOrg (w : World) (replica : Nat) (plaintext : String) (entitled : Bool) : World :=
  { w with
    seals := w.seals ++ [⟨replica, plaintext, if entitled then .reading 0 else .sealing none⟩] }

def loadActiveDek (w : World) (i : Nat) (now : Int) : World :=
  match w.seals[i]? with
  | some call@⟨replica, _, .reading attempt⟩ =>
    match w.row.bind fun config => if config.enabled then activeRef config else none with
    | none => w.setStage i call (.sealing none)
    | some ref =>
      match cachedDek (w.caches replica) (ref.keyId c) (fingerprintOf c ref.wrappedDek) now with
      | some dek => w.setStage i call (.sealing (some ⟨dek, ref.keyId c⟩))
      | none => w.setStage i call (.unwrapping ref attempt)
  | _ => w

/-- KMS answers, or not. -/
def unwrap (w : World) (i : Nat) (ok : Bool) : World :=
  match w.seals[i]? with
  | some call@⟨_, _, .unwrapping ref attempt⟩ =>
    match if ok then unwrapDek c ref else none with
    | some dek => w.setStage i call (.confirming ref dek attempt)
    | none => { w with seals := w.seals.eraseIdx i }
  | _ => w

def MAX_DEK_LOAD_ATTEMPTS : Nat := 3

/-- `loadActiveDek`, from the second read of the row on. -/
def confirm (w : World) (i : Nat) (now : Int) : World :=
  match w.seals[i]? with
  | some call@⟨replica, _, .confirming ref dek attempt⟩ =>
    let fingerprint := fingerprintOf c ref.wrappedDek
    let current := w.row.bind fun config => filled config.wrappedDek
    -- a rotation that was saved meanwhile makes the key a retired one
    if current.map (fingerprintOf c) = some fingerprint then
      { w with
        caches := Function.update w.caches replica
          (cacheDek (w.caches replica) (ref.keyId c) fingerprint dek now) }.setStage i call
        (.sealing (some ⟨dek, ref.keyId c⟩))
    else if MAX_DEK_LOAD_ATTEMPTS ≤ attempt + 1 then { w with seals := w.seals.eraseIdx i }
    else w.setStage i call (.reading (attempt + 1))
  | _ => w

def returnSealed (w : World) (i : Nat) (iv : List UInt8) : World :=
  match w.seals[i]? with
  | some ⟨_, plaintext, .sealing active⟩ =>
    let text := match active with
      | none => platformEncryptField c iv plaintext
      | some active => gcmEncrypt c active iv plaintext
    { w with seals := w.seals.eraseIdx i, values := w.values ++ [⟨plaintext, text⟩] }
  | _ => w

/-! ## Reading -/

def decryptForOrg (w : World) (replica k : Nat) : World :=
  match w.values[k]? with
  | none => w
  | some value =>
    if isEnvelope value.text then
      { w with reads := w.reads ++ [⟨replica, wrappedDeksFor w.row, some value⟩] }
    else w

def warmOrg (w : World) (replica : Nat) : World :=
  { w with reads := w.reads ++ [⟨replica, wrappedDeksFor w.row, none⟩] }

end World

/-- The keys a reader asks KMS for. -/
def KeyRead.wanted (read : KeyRead) : List WrappedDekRef :=
  match read.value with
  | none => read.refs
  | some value =>
    (read.refs.find? fun ref => keyIdFromValue value.text = some (ref.keyId c)).toList

namespace World

/-- `dekFor`, when KMS answers. -/
def fetch (w : World) (i j : Nat) (now : Int) : World :=
  match w.reads[i]? with
  | none => w
  | some read =>
    match (read.wanted c)[j]? with
    | none => w
    | some ref =>
      match unwrapDek c ref with
      | none => w
      | some dek =>
        { w with
          caches := Function.update w.caches read.replica
            (cacheDek (w.caches read.replica) (ref.keyId c) (fingerprintOf c ref.wrappedDek) dek
              now) }

end World

inductive Event
  | attachCmk (replica : Nat) (cmkArn : String) (awsRegion : Option String)
      (enabled : Option Bool)
  | rotateCmk (replica : Nat) (cmkArn awsRegion : Option String)
  | setEnabled (replica : Nat) (enabled : Bool)
  | wrapped (i : Nat) (blob : String)
  | saved (i : Nat) (retiredAt : String)
  /-- KMS or the database refuses a provisioning call. -/
  | refused (i : Nat)
  | encryptForOrg (replica : Nat) (plaintext : String) (entitled : Bool)
  | loaded (i : Nat) (now : Int)
  | unwrapped (i : Nat) (ok : Bool)
  | confirmed (i : Nat) (now : Int)
  | returned (i : Nat) (iv : List UInt8)
  | decryptForOrg (replica k : Nat)
  | warmOrg (replica : Nat)
  | fetched (i j : Nat) (now : Int)
  /-- A reader is done. -/
  | ended (i : Nat)

def step (w : World) : Event → World
  | .attachCmk replica cmkArn awsRegion enabled => w.attachCmk replica cmkArn awsRegion enabled
  | .rotateCmk replica cmkArn awsRegion => w.rotateCmk replica cmkArn awsRegion
  | .setEnabled replica enabled => w.setEnabled replica enabled
  | .wrapped i blob => w.wrapFreshDek i blob
  | .saved i retiredAt => w.save c i retiredAt
  | .refused i => { w with provisions := w.provisions.eraseIdx i }
  | .encryptForOrg replica plaintext entitled => w.encryptForOrg replica plaintext entitled
  | .loaded i now => w.loadActiveDek c i now
  | .unwrapped i ok => w.unwrap c i ok
  | .confirmed i now => w.confirm c i now
  | .returned i iv => w.returnSealed c i iv
  | .decryptForOrg replica k => w.decryptForOrg replica k
  | .warmOrg replica => w.warmOrg replica
  | .fetched i j now => w.fetch c i j now
  | .ended i => { w with reads := w.reads.eraseIdx i }

/-! ## What is said of a run -/

def distinctBlobs (w : World) : Event → Bool
  | .wrapped _ blob => w.minted.all fun ref => ref.keyId c ≠ keyIdOf c blob
  | _ => true

def OrgKmsConfig.keys (config : OrgKmsConfig) :
    Option String × Option String × Option String × List RetiredDek :=
  (config.wrappedDek, config.cmkArn, config.awsRegion, config.retiredDeks)

def upToDate (w : World) : Event → Bool
  | .saved i _ => w.provisions[i]?.all fun p => p.read.all fun config =>
      w.row.map OrgKmsConfig.keys = some config.keys
  | _ => true

structure Readable (w : World) : Prop where
  /-- Any replica opens a value, at any time. -/
  opens : ∀ value ∈ w.values, ∀ replica now,
    decryptForOrg c w.row (w.caches replica) now value.text = some value.plaintext
  /-- So does one that has read the row before. -/
  opening : ∀ read ∈ w.reads, ∀ value ∈ read.value, ∀ now,
    decryptWith c read.refs (w.caches read.replica) now value.text = some value.plaintext
  /-- The key that a value names is active or retired. -/
  kept : ∀ value ∈ w.values, isEnvelope value.text →
    ∃ ref ∈ wrappedDeksFor w.row, keyIdFromValue value.text = some (ref.keyId c)

end Service

end Almyty.Kms
