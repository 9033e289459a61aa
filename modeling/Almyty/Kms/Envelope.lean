import Mathlib

/-!
# Secrets under a customer's key: `envelope-crypto.service.ts`, `field-crypto.ts`

A customer-managed value carries the id of the key that sealed it, and is opened with the wrapped
key of that id among those the organization's row holds, active or retired
(`decryptWith_gcmEncrypt`). A value of the platform is opened with the platform's key whatever the
row holds (`decryptWith_platform`).

Mirroring notes:
- KMS `Decrypt`, sha256 and AES are parameters. KMS is a function of the CMK, the region and the
  blob; `Sound` has that AES-GCM opens what it sealed.
- One organization: the cache is by key id alone.
-/

namespace Almyty.Kms

abbrev Dek := List UInt8

structure Crypto where
  sha256 : String → List UInt8
  /-- KMS `Decrypt`, by CMK, region and blob. -/
  decrypt : String → Option String → String → Option Dek
  /-- AES-256-GCM, by key, iv and text: the tag and the ciphertext. -/
  gcmSeal : Dek → List UInt8 → String → List UInt8 × List UInt8
  gcmOpen : Dek → List UInt8 → List UInt8 → List UInt8 → Option String
  /-- AES-256-CBC, which is read only. -/
  cbcOpen : Dek → List UInt8 → List UInt8 → Option String
  platformKey : Dek

structure Crypto.Sound (c : Crypto) : Prop where
  open_seal : ∀ dek iv plaintext,
    c.gcmOpen dek iv (c.gcmSeal dek iv plaintext).1 (c.gcmSeal dek iv plaintext).2 =
      some plaintext

/-! ## Hex, and fields between colons -/

def hexDigit (n : Nat) : Char := if n < 10 then Char.ofNat (48 + n) else Char.ofNat (87 + n)

def hexValue (ch : Char) : Option Nat :=
  if '0' ≤ ch ∧ ch ≤ '9' then some (ch.toNat - 48)
  else if 'a' ≤ ch ∧ ch ≤ 'f' then some (ch.toNat - 87)
  else if 'A' ≤ ch ∧ ch ≤ 'F' then some (ch.toNat - 55)
  else none

def hex (bytes : List UInt8) : List Char :=
  bytes.flatMap fun b => [hexDigit (b.toNat / 16), hexDigit (b.toNat % 16)]

/-- `Buffer.from(text, 'hex')`, which ends at the first pair that is no byte. -/
def fromHex : List Char → List UInt8
  | high :: low :: rest =>
    match hexValue high, hexValue low with
    | some h, some l => UInt8.ofNat (16 * h + l) :: fromHex rest
    | _, _ => []
  | _ => []

theorem hexValue_hexDigit : ∀ n < 16, hexValue (hexDigit n) = some n := by decide

theorem hexDigit_ne_colon : ∀ n < 16, hexDigit n ≠ ':' := by decide

theorem fromHex_hex (bytes : List UInt8) : fromHex (hex bytes) = bytes := by
  induction bytes with
  | nil => rfl
  | cons b bytes ih =>
    have hb : b.toNat < 256 := b.toNat_lt
    have hhigh := hexValue_hexDigit (b.toNat / 16) (by omega)
    have hlow := hexValue_hexDigit (b.toNat % 16) (by omega)
    have hback : 16 * (b.toNat / 16) + b.toNat % 16 = b.toNat := Nat.div_add_mod _ 16
    have hcons : hex (b :: bytes) =
        hexDigit (b.toNat / 16) :: hexDigit (b.toNat % 16) :: hex bytes := rfl
    rw [hcons, fromHex, hhigh, hlow]
    dsimp only
    rw [hback, ih, UInt8.ofNat_toNat]

theorem colon_not_mem_hex (bytes : List UInt8) : ':' ∉ hex bytes := by
  intro h
  obtain ⟨b, -, hmem⟩ := List.mem_flatMap.mp h
  have hb : b.toNat < 256 := b.toNat_lt
  rcases List.mem_cons.mp hmem with heq | hmem
  · exact hexDigit_ne_colon (b.toNat / 16) (by omega) heq.symm
  · exact hexDigit_ne_colon (b.toNat % 16) (by omega) (List.mem_singleton.mp hmem).symm

/-! ## The row -/

structure RetiredDek where
  keyId : String
  wrappedDek : String
  cmkArn : String
  awsRegion : Option String
  retiredAt : String
  deriving DecidableEq

structure OrgKmsConfig where
  enabled : Bool := false
  cmkArn : Option String := none
  awsRegion : Option String := none
  wrappedDek : Option String := none
  retiredDeks : List RetiredDek := []

structure WrappedDekRef where
  wrappedDek : String
  cmkArn : String
  awsRegion : Option String

/-- A text that counts as one: neither null nor empty. -/
def filled (text : Option String) : Option String := text.filter (· ≠ "")

def activeRef (config : OrgKmsConfig) : Option WrappedDekRef :=
  match filled config.wrappedDek, filled config.cmkArn with
  | some wrappedDek, some cmkArn => some ⟨wrappedDek, cmkArn, config.awsRegion⟩
  | _, _ => none

def retiredRef (retired : RetiredDek) : Option WrappedDekRef :=
  if retired.wrappedDek = "" ∨ retired.cmkArn = "" then none
  else some ⟨retired.wrappedDek, retired.cmkArn, retired.awsRegion⟩

def wrappedDeksFor : Option OrgKmsConfig → List WrappedDekRef
  | none => []
  | some config => (activeRef config).toList ++ config.retiredDeks.filterMap retiredRef

section Service

variable (c : Crypto)

def fingerprintOf (wrappedDek : String) : List Char := hex (c.sha256 wrappedDek)

def KEY_ID_BYTES : Nat := 8

def keyIdOf (wrappedDek : String) : List Char := (fingerprintOf c wrappedDek).take (KEY_ID_BYTES * 2)

def WrappedDekRef.keyId (ref : WrappedDekRef) : List Char := keyIdOf c ref.wrappedDek

/-! ## The cache -/

def DEK_CACHE_TTL_MS : Int := 5 * 60000

structure DekCacheEntry where
  dek : Dek
  fingerprint : List Char
  expiresAt : Int

abbrev DekCache := List (List Char × DekCacheEntry)

def cachedDek (cache : DekCache) (keyId fingerprint : List Char) (now : Int) : Option Dek :=
  match cache.lookup keyId with
  | some cached =>
    if cached.fingerprint = fingerprint ∧ now < cached.expiresAt then some cached.dek else none
  | none => none

def cacheDek (cache : DekCache) (keyId fingerprint : List Char) (dek : Dek) (now : Int) :
    DekCache :=
  (keyId, { dek, fingerprint, expiresAt := now + DEK_CACHE_TTL_MS }) :: cache

def unwrapDek (ref : WrappedDekRef) : Option Dek :=
  (c.decrypt ref.cmkArn ref.awsRegion ref.wrappedDek).filter fun dek => dek.length = 32

def dekFor (cache : DekCache) (ref : WrappedDekRef) (now : Int) : Option Dek :=
  (cachedDek cache (ref.keyId c) (fingerprintOf c ref.wrappedDek) now).or (unwrapDek c ref)

/-! ## Values -/

def ENCRYPTED : List Char := ['e', 'n', 'c', 'r', 'y', 'p', 't', 'e', 'd']

def GCM : List Char := ['g', 'c', 'm']

/-- `encrypted:kms:`. -/
def KMS_PREFIX : List Char := ENCRYPTED ++ [':', 'k', 'm', 's', ':']

def ENVELOPE_FIELDS : Nat := 4

def isEnvelope (value : List Char) : Bool := KMS_PREFIX.isPrefixOf value

def envelopeFields (value : List Char) : Option (List (List Char)) :=
  let parts := (value.drop KMS_PREFIX.length).splitOn ':'
  if parts.length = ENVELOPE_FIELDS then some parts else none

def keyIdFromValue (value : List Char) : Option (List Char) :=
  (envelopeFields value).bind fun parts => parts[0]?

structure ActiveDek where
  dek : Dek
  keyId : List Char

def gcmEncrypt (active : ActiveDek) (iv : List UInt8) (plaintext : String) : List Char :=
  let (tag, ct) := c.gcmSeal active.dek iv plaintext
  KMS_PREFIX ++ active.keyId ++ ':' :: hex iv ++ ':' :: hex tag ++ ':' :: hex ct

def gcmDecrypt (key : Dek) (value : List Char) : Option String :=
  match envelopeFields value with
  | some [_, iv, tag, ct] => c.gcmOpen key (fromHex iv) (fromHex tag) (fromHex ct)
  | _ => none

def platformEncryptField (iv : List UInt8) (plaintext : String) : List Char :=
  let (tag, ct) := c.gcmSeal c.platformKey iv plaintext
  ENCRYPTED ++ ':' :: GCM ++ ':' :: hex iv ++ ':' :: hex tag ++ ':' :: hex ct

def platformDecryptField (value : List Char) : Option String :=
  if (ENCRYPTED ++ [':']).isPrefixOf value then
    let parts := value.splitOn ':'
    match parts with
    | _ :: first :: rest =>
      if rest = [] then none
      else if first = GCM then
        match rest with
        | [iv, tag, ct] => c.gcmOpen c.platformKey (fromHex iv) (fromHex tag) (fromHex ct)
        | _ => none
      else c.cbcOpen c.platformKey (fromHex first) (fromHex ([':'].intercalate rest))
    | _ => none
  else some (String.ofList value)

def loadDekById (refs : List WrappedDekRef) (cache : DekCache) (now : Int) (keyId : List Char) :
    Option Dek :=
  (refs.find? fun ref => ref.keyId c = keyId).bind fun ref => dekFor c cache ref now

def decryptWith (refs : List WrappedDekRef) (cache : DekCache) (now : Int) (value : List Char) :
    Option String :=
  if isEnvelope value then
    (keyIdFromValue value).bind fun keyId =>
      (loadDekById c refs cache now keyId).bind fun dek => gcmDecrypt c dek value
  else platformDecryptField c value

def decryptForOrg (row : Option OrgKmsConfig) (cache : DekCache) (now : Int) (value : List Char) :
    Option String :=
  decryptWith c (wrappedDeksFor row) cache now value

end Service

/-! ## Opening what was sealed -/

section Lemmas

variable {c : Crypto}

theorem colon_not_mem_keyIdOf (wrappedDek : String) : ':' ∉ keyIdOf c wrappedDek := fun h =>
  colon_not_mem_hex _ (List.mem_of_mem_take h)

theorem splitOn_fields {first second third fourth : List Char} (hfirst : ':' ∉ first)
    (hsecond : ':' ∉ second) (hthird : ':' ∉ third) (hfourth : ':' ∉ fourth) :
    (first ++ ':' :: (second ++ ':' :: (third ++ ':' :: fourth))).splitOn ':' =
      [first, second, third, fourth] := by
  rw [List.splitOn_append_cons_self_of_not_mem hfirst,
    List.splitOn_append_cons_self_of_not_mem hsecond,
    List.splitOn_append_cons_self_of_not_mem hthird, List.splitOn_eq_singleton hfourth]

theorem gcmEncrypt_eq (c : Crypto) (active : ActiveDek) (iv : List UInt8) (plaintext : String) :
    gcmEncrypt c active iv plaintext = KMS_PREFIX ++ (active.keyId ++ ':' :: (hex iv ++
      ':' :: (hex (c.gcmSeal active.dek iv plaintext).1 ++
        ':' :: hex (c.gcmSeal active.dek iv plaintext).2))) := by
  simp [gcmEncrypt]

theorem isEnvelope_gcmEncrypt (active : ActiveDek) (iv : List UInt8) (plaintext : String) :
    isEnvelope (gcmEncrypt c active iv plaintext) = true := by
  rw [isEnvelope, gcmEncrypt_eq, List.isPrefixOf_iff_prefix]
  exact List.prefix_append _ _

theorem envelopeFields_gcmEncrypt {active : ActiveDek} (hkeyId : ':' ∉ active.keyId)
    (iv : List UInt8) (plaintext : String) :
    envelopeFields (gcmEncrypt c active iv plaintext) =
      some [active.keyId, hex iv, hex (c.gcmSeal active.dek iv plaintext).1,
        hex (c.gcmSeal active.dek iv plaintext).2] := by
  rw [envelopeFields, gcmEncrypt_eq, List.drop_left, splitOn_fields hkeyId (colon_not_mem_hex _)
    (colon_not_mem_hex _) (colon_not_mem_hex _)]
  rfl

theorem keyIdFromValue_gcmEncrypt {active : ActiveDek} (hkeyId : ':' ∉ active.keyId)
    (iv : List UInt8) (plaintext : String) :
    keyIdFromValue (gcmEncrypt c active iv plaintext) = some active.keyId := by
  rw [keyIdFromValue, envelopeFields_gcmEncrypt hkeyId]
  rfl

theorem gcmDecrypt_gcmEncrypt (hc : c.Sound) {active : ActiveDek} (hkeyId : ':' ∉ active.keyId)
    (iv : List UInt8) (plaintext : String) :
    gcmDecrypt c active.dek (gcmEncrypt c active iv plaintext) = some plaintext := by
  rw [gcmDecrypt, envelopeFields_gcmEncrypt hkeyId]
  dsimp only
  rw [fromHex_hex, fromHex_hex, fromHex_hex]
  exact hc.open_seal active.dek iv plaintext

theorem decryptWith_gcmEncrypt (hc : c.Sound) {refs : List WrappedDekRef} {cache : DekCache}
    {now : Int} {ref : WrappedDekRef} {dek : Dek}
    (hfind : refs.find? (fun ref' => ref'.keyId c = ref.keyId c) = some ref)
    (hdek : dekFor c cache ref now = some dek) (iv : List UInt8) (plaintext : String) :
    decryptWith c refs cache now (gcmEncrypt c ⟨dek, ref.keyId c⟩ iv plaintext) =
      some plaintext := by
  have hcolon : ':' ∉ ref.keyId c := colon_not_mem_keyIdOf ref.wrappedDek
  rw [decryptWith, if_pos (isEnvelope_gcmEncrypt _ _ _), keyIdFromValue_gcmEncrypt hcolon,
    Option.bind_some, loadDekById, hfind, Option.bind_some, hdek, Option.bind_some]
  exact gcmDecrypt_gcmEncrypt hc hcolon iv plaintext

theorem platformEncryptField_eq (c : Crypto) (iv : List UInt8) (plaintext : String) :
    platformEncryptField c iv plaintext = ENCRYPTED ++ ':' :: (GCM ++
      ':' :: (hex iv ++ ':' :: (hex (c.gcmSeal c.platformKey iv plaintext).1 ++
        ':' :: hex (c.gcmSeal c.platformKey iv plaintext).2))) := by
  simp [platformEncryptField]

theorem isEnvelope_platformEncryptField (iv : List UInt8) (plaintext : String) :
    isEnvelope (platformEncryptField c iv plaintext) = false := by
  rw [platformEncryptField_eq]
  rfl

theorem decryptWith_platform (hc : c.Sound) (refs : List WrappedDekRef) (cache : DekCache)
    (now : Int) (iv : List UInt8) (plaintext : String) :
    decryptWith c refs cache now (platformEncryptField c iv plaintext) = some plaintext := by
  have hencrypted : ∀ rest, (ENCRYPTED ++ [':']).isPrefixOf (ENCRYPTED ++ ':' :: rest) = true :=
    fun _ => rfl
  rw [decryptWith, isEnvelope_platformEncryptField, if_neg (by decide), platformDecryptField,
    platformEncryptField_eq, if_pos (hencrypted _)]
  rw [List.splitOn_append_cons_self_of_not_mem (by decide), splitOn_fields (by decide)
    (colon_not_mem_hex _) (colon_not_mem_hex _) (colon_not_mem_hex _)]
  dsimp only
  rw [if_neg (by simp), if_pos rfl, fromHex_hex, fromHex_hex, fromHex_hex]
  exact hc.open_seal c.platformKey iv plaintext

end Lemmas

end Almyty.Kms
