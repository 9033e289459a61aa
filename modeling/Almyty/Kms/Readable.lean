import Almyty.Kms.Provisioning

/-!
# Values stay readable

`Good` says of every key in use, be it of the row, of a call under way or in a cache, that KMS has
wrapped it, and of every sealed value that its key is one of the row's. While the row has the keys
that were read nothing is lost, and then no cache can give a wrong key either (`CacheOk.dekFor`).
-/

namespace Almyty.Kms

open Almyty.Lib List Option

variable {c : Crypto}

/-! ## Keys of a row -/

structure Minted (minted : List WrappedDekRef) (config : OrgKmsConfig) : Prop where
  active : ∀ ref ∈ activeRef config, ref ∈ minted
  retired : ∀ entry ∈ config.retiredDeks, ∃ ref ∈ minted, retiredRef entry = some ref

/-- A key id names one minted key. -/
def Distinct (c : Crypto) (minted : List WrappedDekRef) : Prop :=
  ∀ ref ∈ minted, ∀ ref' ∈ minted, ref.keyId c = ref'.keyId c → ref = ref'

variable {minted : List WrappedDekRef} {config : OrgKmsConfig}

variable {ref : WrappedDekRef}

theorem mem_wrappedDeksFor :
    ref ∈ wrappedDeksFor (some config) ↔
      activeRef config = some ref ∨ ∃ entry ∈ config.retiredDeks, retiredRef entry = some ref := by
  rw [wrappedDeksFor, mem_append, mem_toList, mem_filterMap]

theorem Minted.refs (h : Minted minted config) : wrappedDeksFor (some config) ⊆ minted := by
  intro ref hmem
  rcases mem_wrappedDeksFor.mp hmem with hactive | ⟨entry, hentry, hretired⟩
  · exact h.active ref hactive
  · obtain ⟨ref', hmem', hsome⟩ := h.retired entry hentry
    rw [hretired] at hsome
    cases hsome
    exact hmem'

variable {minted' : List WrappedDekRef}

theorem Minted.mono (h : Minted minted config) (hsub : minted ⊆ minted') :
    Minted minted' config where
  active ref href := hsub (h.active ref href)
  retired entry hentry := by
    obtain ⟨ref, hmem, hsome⟩ := h.retired entry hentry
    exact ⟨ref, hsub hmem, hsome⟩

theorem wrappedDeksFor_congr {row row' : OrgKmsConfig} (hkeys : row.keys = row'.keys) :
    wrappedDeksFor (some row) = wrappedDeksFor (some row') := by
  simp only [OrgKmsConfig.keys, Prod.mk.injEq] at hkeys
  obtain ⟨hwrapped, harn, hregion, hretired⟩ := hkeys
  rw [wrappedDeksFor, wrappedDeksFor, activeRef, activeRef, hwrapped, harn, hregion, hretired]

theorem filled_eq_some {text : Option String} {value : String} (h : filled text = some value) :
    text = some value ∧ value ≠ "" := by
  obtain ⟨hsome, hne⟩ := filter_eq_some_iff.mp h
  exact ⟨hsome, of_decide_eq_true hne⟩

theorem activeRef_eq_some (h : activeRef config = some ref) :
    ref.wrappedDek ≠ "" ∧ ref.cmkArn ≠ "" ∧ config.wrappedDek = some ref.wrappedDek ∧
      config.cmkArn = some ref.cmkArn ∧ config.awsRegion = ref.awsRegion := by
  unfold activeRef at h
  split at h
  next wrappedDek cmkArn hwrapped harn =>
    cases h
    obtain ⟨hwrapped, hne⟩ := filled_eq_some hwrapped
    obtain ⟨harn, hne'⟩ := filled_eq_some harn
    exact ⟨hne, hne', hwrapped, harn, rfl⟩
  · cases h

theorem activeRef_mk {wrappedDek cmkArn : String} (hwrapped : config.wrappedDek = some wrappedDek)
    (harn : config.cmkArn = some cmkArn) (h : activeRef config = some ref) :
    ref = ⟨wrappedDek, cmkArn, config.awsRegion⟩ := by
  obtain ⟨-, -, hwrapped', harn', hregion⟩ := activeRef_eq_some h
  rw [hwrapped] at hwrapped'
  rw [harn] at harn'
  cases hwrapped'
  cases harn'
  rw [hregion]

theorem retiredRef_retiring (h : activeRef config = some ref) (retiredAt : String) :
    retiredRef (retiring c ref retiredAt) = some ref := by
  obtain ⟨hwrapped, harn, -⟩ := activeRef_eq_some h
  exact if_neg (not_or.mpr ⟨hwrapped, harn⟩)

/-! ### The three operations -/

section Operations

variable {existing : Option OrgKmsConfig} {cmkArn : String} {awsRegion : Option String}
  {enabled : Option Bool} {wrapped : String}

theorem minted_attached (hrow : ∀ config ∈ existing, Minted minted config)
    (hfresh : ⟨wrapped, cmkArn, awsRegion⟩ ∈ minted) :
    Minted minted (attached existing cmkArn awsRegion enabled wrapped) where
  active ref href := by
    rw [activeRef_mk rfl rfl href]
    exact hfresh
  retired entry hentry := by
    cases existing with
    | none => cases hentry
    | some config => exact (hrow config rfl).retired entry hentry

theorem subset_attached (hnone : filled config.wrappedDek = none) :
    wrappedDeksFor (some config) ⊆
      wrappedDeksFor (some (attached (some config) cmkArn awsRegion enabled wrapped)) := by
  intro ref hmem
  rcases mem_wrappedDeksFor.mp hmem with hactive | hretired
  · -- the guard: there is no active key to lose
    rw [activeRef, hnone] at hactive
    cases hactive
  · exact mem_wrappedDeksFor.mpr (.inr hretired)

variable {ref : WrappedDekRef} {target : String × Option String} {retiredAt : String}

theorem mem_retired_rotated {entry : RetiredDek}
    (hmem : entry ∈ (rotated c config ref target wrapped retiredAt).retiredDeks) :
    entry ∈ config.retiredDeks ∨ entry = retiring c ref retiredAt := by
  unfold rotated at hmem
  dsimp only at hmem
  split at hmem
  · exact .inl hmem
  · rcases mem_append.mp hmem with hmem | hmem
    · exact .inl hmem
    · exact .inr (mem_singleton.mp hmem)

theorem minted_rotated (h : Minted minted config) (hactive : activeRef config = some ref)
    (hfresh : ⟨wrapped, target.1, target.2⟩ ∈ minted) :
    Minted minted (rotated c config ref target wrapped retiredAt) where
  active ref' href' := by
    rw [activeRef_mk rfl rfl href']
    exact hfresh
  retired entry hentry := by
    rcases mem_retired_rotated hentry with hentry | rfl
    · exact h.retired entry hentry
    · exact ⟨ref, h.active ref hactive, retiredRef_retiring hactive retiredAt⟩

theorem outgoing_retired (h : Minted minted config) (hdistinct : Distinct c minted)
    (hactive : activeRef config = some ref) :
    ∃ entry ∈ (rotated c config ref target wrapped retiredAt).retiredDeks,
      retiredRef entry = some ref := by
  unfold rotated
  dsimp only
  split
  next hany =>
    -- nothing is added for the key: the entry that has its id must be its own
    obtain ⟨entry, hentry, hid⟩ := any_eq_true.mp hany
    obtain ⟨ref', hmem', hsome⟩ := h.retired entry hentry
    refine ⟨entry, hentry, ?_⟩
    have hwrapped : ref'.wrappedDek = entry.wrappedDek := by
      unfold retiredRef at hsome
      split at hsome
      · cases hsome
      · cases hsome
        rfl
    have hid' : ref'.keyId c = ref.keyId c := by
      rw [WrappedDekRef.keyId, hwrapped]
      exact of_decide_eq_true hid
    rw [hsome, hdistinct ref' hmem' ref (h.active ref hactive) hid']
  · exact ⟨_, mem_append_right _ mem_cons_self, retiredRef_retiring hactive retiredAt⟩

theorem subset_rotated (h : Minted minted config) (hdistinct : Distinct c minted)
    (hactive : activeRef config = some ref) :
    wrappedDeksFor (some config) ⊆
      wrappedDeksFor (some (rotated c config ref target wrapped retiredAt)) := by
  intro ref' hmem
  rcases mem_wrappedDeksFor.mp hmem with hactive' | ⟨entry, hentry, hretired⟩
  · rw [hactive] at hactive'
    cases hactive'
    exact mem_wrappedDeksFor.mpr (.inr (outgoing_retired h hdistinct hactive))
  · refine mem_wrappedDeksFor.mpr (.inr ⟨entry, ?_, hretired⟩)
    unfold rotated
    dsimp only
    split
    · exact hentry
    · exact mem_append_left _ hentry

end Operations

structure ProvisionOk (minted : List WrappedDekRef) (p : Provision) : Prop where
  admitted : p.change.admitted p.read = true
  read : ∀ config ∈ p.read, Minted minted config
  fresh : ∀ wrapped ∈ p.wrapped, ∀ target ∈ p.target, ⟨wrapped, target.1, target.2⟩ ∈ minted

theorem ProvisionOk.mono {p : Provision} (h : ProvisionOk minted p) (hsub : minted ⊆ minted') :
    ProvisionOk minted' p where
  admitted := h.admitted
  read config hconfig := (h.read config hconfig).mono hsub
  fresh wrapped hwrapped target htarget := hsub (h.fresh wrapped hwrapped target htarget)

theorem ProvisionOk.entity {p : Provision} (h : ProvisionOk minted p)
    (hdistinct : Distinct c minted) {retiredAt : String} {config : OrgKmsConfig}
    (hentity : p.entity c retiredAt = some config) :
    Minted minted config ∧
      ∀ read ∈ p.read, wrappedDeksFor (some read) ⊆ wrappedDeksFor (some config) := by
  obtain ⟨replica, read, change, wrapped⟩ := p
  cases change with
  | attach cmkArn awsRegion enabled =>
    cases wrapped with
    | none => cases hentity
    | some wrapped =>
      cases hentity
      refine ⟨minted_attached h.read (h.fresh wrapped rfl _ rfl), ?_⟩
      rintro config rfl
      exact subset_attached (isNone_iff_eq_none.mp h.admitted)
  | rotate cmkArn awsRegion =>
    cases read with
    | none => cases hentity
    | some read =>
      cases wrapped with
      | none => cases hentity
      | some wrapped =>
        simp only [Provision.entity] at hentity
        split at hentity
        next ref target hactive htarget =>
          cases hentity
          refine ⟨minted_rotated (h.read read rfl) hactive (h.fresh wrapped rfl target htarget), ?_⟩
          rintro _ ⟨⟩
          exact subset_rotated (h.read read rfl) hdistinct hactive
        · cases hentity
  | enable enabled =>
    cases read with
    | none => cases hentity
    | some read =>
      cases hentity
      refine ⟨⟨(h.read read rfl).active, (h.read read rfl).retired⟩, ?_⟩
      rintro _ ⟨⟩
      exact List.Subset.refl _


/-! ## Caches, calls and values -/

def CacheOk (c : Crypto) (minted : List WrappedDekRef) (cache : DekCache) : Prop :=
  ∀ entry ∈ cache, ∃ ref ∈ minted, entry.1 = ref.keyId c ∧ unwrapDek c ref = some entry.2.dek

variable {cache : DekCache}

theorem CacheOk.mono (h : CacheOk c minted cache) (hsub : minted ⊆ minted') :
    CacheOk c minted' cache := by
  intro entry hentry
  obtain ⟨ref, hmem, hid, hdek⟩ := h entry hentry
  exact ⟨ref, hsub hmem, hid, hdek⟩

theorem CacheOk.cacheDek (h : CacheOk c minted cache) {dek : Dek} (hmem : ref ∈ minted)
    (hdek : unwrapDek c ref = some dek) (fingerprint : List Char) (now : Int) :
    CacheOk c minted (cacheDek cache (ref.keyId c) fingerprint dek now) := by
  intro entry hentry
  rcases mem_cons.mp hentry with rfl | hentry
  · exact ⟨ref, hmem, rfl, hdek⟩
  · exact h entry hentry

theorem CacheOk.cachedDek (h : CacheOk c minted cache) (hdistinct : Distinct c minted)
    (hmem : ref ∈ minted) {fingerprint : List Char} {now : Int} {dek : Dek}
    (hcached : cachedDek cache (ref.keyId c) fingerprint now = some dek) :
    unwrapDek c ref = some dek := by
  unfold Kms.cachedDek at hcached
  split at hcached
  next entry hlookup =>
    obtain ⟨before, after, hcache, -⟩ := lookup_eq_some_iff.mp hlookup
    have hentry : (ref.keyId c, entry) ∈ cache := by
      rw [hcache]
      exact mem_append_right _ mem_cons_self
    obtain ⟨ref', hmem', hid, hdek⟩ := h _ hentry
    have hsame : ref' = ref := hdistinct ref' hmem' ref hmem hid.symm
    split at hcached
    · cases hcached
      rw [← hsame]
      exact hdek
    · cases hcached
  · cases hcached

theorem CacheOk.dekFor (h : CacheOk c minted cache) (hdistinct : Distinct c minted)
    (hmem : ref ∈ minted) (now : Int) :
    dekFor c cache ref now = unwrapDek c ref := by
  unfold Kms.dekFor
  cases hcached : Kms.cachedDek cache (ref.keyId c) (fingerprintOf c ref.wrappedDek) now with
  | none => rw [none_or]
  | some dek => rw [some_or, h.cachedDek hdistinct hmem hcached]

def StageOk (c : Crypto) (refs : List WrappedDekRef) : Stage → Prop
  | .reading _ | .sealing none => True
  | .unwrapping ref _ => ref ∈ refs
  | .confirming ref dek _ => ref ∈ refs ∧ unwrapDek c ref = some dek
  | .sealing (some active) =>
    ∃ ref ∈ refs, active.keyId = ref.keyId c ∧ unwrapDek c ref = some active.dek

theorem StageOk.mono {refs refs' : List WrappedDekRef} (hsub : refs ⊆ refs') {stage : Stage}
    (h : StageOk c refs stage) : StageOk c refs' stage := by
  match stage, h with
  | .reading _, _ | .sealing none, _ => exact trivial
  | .unwrapping _ _, h => exact hsub h
  | .confirming _ _ _, ⟨hmem, hdek⟩ => exact ⟨hsub hmem, hdek⟩
  | .sealing (some _), ⟨ref, hmem, hactive⟩ => exact ⟨ref, hsub hmem, hactive⟩

def Kept (c : Crypto) (refs : List WrappedDekRef) (value : StoredValue) : Prop :=
  (∃ iv, value.text = platformEncryptField c iv value.plaintext) ∨
    ∃ ref ∈ refs, ∃ dek iv, unwrapDek c ref = some dek ∧
      value.text = gcmEncrypt c ⟨dek, ref.keyId c⟩ iv value.plaintext

variable {refs : List WrappedDekRef} {value : StoredValue}

theorem Kept.mono {refs' : List WrappedDekRef} (h : Kept c refs value) (hsub : refs ⊆ refs') :
    Kept c refs' value := by
  rcases h with hplatform | ⟨ref, hmem, hsealed⟩
  · exact .inl hplatform
  · exact .inr ⟨ref, hsub hmem, hsealed⟩

theorem find?_of_distinct (hdistinct : Distinct c minted) (hrefs : refs ⊆ minted)
    (hmem : ref ∈ refs) :
    refs.find? (fun ref' => ref'.keyId c = ref.keyId c) = some ref := by
  cases hfind : refs.find? (fun ref' => ref'.keyId c = ref.keyId c) with
  | none =>
    have hnot := List.find?_eq_none.mp hfind ref hmem
    exact absurd (decide_eq_true rfl) hnot
  | some ref' =>
    have hid : ref'.keyId c = ref.keyId c := by simpa using List.find?_some hfind
    have hmem' : ref' ∈ refs := List.mem_of_find?_eq_some hfind
    rw [hdistinct ref' (hrefs hmem') ref (hrefs hmem) hid]

theorem Kept.opens (hc : c.Sound) (hdistinct : Distinct c minted) (hrefs : refs ⊆ minted)
    (hcache : CacheOk c minted cache) (h : Kept c refs value) (now : Int) :
    decryptWith c refs cache now value.text = some value.plaintext := by
  rcases h with ⟨iv, htext⟩ | ⟨ref, hmem, dek, iv, hdek, htext⟩
  · rw [htext]
    exact decryptWith_platform hc refs cache now iv value.plaintext
  · rw [htext]
    refine decryptWith_gcmEncrypt hc (find?_of_distinct hdistinct hrefs hmem) ?_ iv value.plaintext
    rw [hcache.dekFor hdistinct (hrefs hmem), hdek]

theorem Kept.kept (h : Kept c refs value) (henvelope : isEnvelope value.text) :
    ∃ ref ∈ refs, keyIdFromValue value.text = some (ref.keyId c) := by
  rcases h with ⟨iv, htext⟩ | ⟨ref, hmem, dek, iv, -, htext⟩
  · rw [htext, isEnvelope_platformEncryptField] at henvelope
    cases henvelope
  · refine ⟨ref, hmem, ?_⟩
    rw [htext]
    exact keyIdFromValue_gcmEncrypt (colon_not_mem_keyIdOf ref.wrappedDek) iv value.plaintext

/-! ## The invariant -/

structure Good (c : Crypto) (w : World) : Prop where
  distinct : Distinct c w.minted
  row : ∀ config ∈ w.row, Minted w.minted config
  provisions : ∀ p ∈ w.provisions, ProvisionOk w.minted p
  caches : ∀ replica, CacheOk c w.minted (w.caches replica)
  seals : ∀ call ∈ w.seals, StageOk c (wrappedDeksFor w.row) call.stage
  refs : ∀ read ∈ w.reads, read.refs ⊆ w.minted
  reads : ∀ read ∈ w.reads, ∀ value ∈ read.value, Kept c read.refs value
  values : ∀ value ∈ w.values, Kept c (wrappedDeksFor w.row) value

theorem good_new (c : Crypto) : Good c {} where
  distinct _ h := absurd h not_mem_nil
  row _ h := by cases h
  provisions _ h := absurd h not_mem_nil
  caches _ _ h := absurd h not_mem_nil
  seals _ h := absurd h not_mem_nil
  refs _ h := absurd h not_mem_nil
  reads _ h := absurd h not_mem_nil
  values _ h := absurd h not_mem_nil

variable {w : World}

theorem Good.rowRefs (h : Good c w) : wrappedDeksFor w.row ⊆ w.minted := by
  cases hrow : w.row with
  | none => exact nil_subset _
  | some config => exact (h.row config hrow).refs

theorem Good.readable (hc : c.Sound) (h : Good c w) : Readable c w where
  opens value hvalue replica now :=
    (h.values value hvalue).opens hc h.distinct h.rowRefs (h.caches replica) now
  opening read hread value hvalue now :=
    (h.reads read hread value hvalue).opens hc h.distinct (h.refs read hread)
      (h.caches read.replica) now
  kept value hvalue henvelope := (h.values value hvalue).kept henvelope

theorem Good.setCache (h : Good c w) (replica : Nat) (hcache : CacheOk c w.minted cache) :
    Good c { w with caches := Function.update w.caches replica cache } :=
  { h with
    caches := fun other => by
      dsimp only
      by_cases hother : other = replica
      · rw [hother, Function.update_self]
        exact hcache
      · rw [Function.update_of_ne hother]
        exact h.caches other }

theorem Good.dropProvision (h : Good c w) (i : Nat) :
    Good c { w with provisions := w.provisions.eraseIdx i } :=
  { h with provisions := fun p hp => h.provisions p (mem_of_mem_eraseIdx hp) }

theorem Good.provision (h : Good c w) (replica : Nat) (change : Change) :
    Good c (w.provision replica change) := by
  unfold World.provision
  split
  next hadmitted =>
    exact { h with
      provisions := fun p hp => by
        rcases mem_append.mp hp with hp | hp
        · exact h.provisions p hp
        · rw [mem_singleton.mp hp]
          exact ⟨hadmitted, h.row, fun _ hwrapped => by cases hwrapped⟩ }
  · exact h

theorem Good.wrapFreshDek (h : Good c w) {i : Nat} {blob : String}
    (hdistinct : distinctBlobs c w (.wrapped i blob) = true) :
    Good c (w.wrapFreshDek i blob) := by
  have hblob : ∀ ref ∈ w.minted, ref.keyId c ≠ keyIdOf c blob := fun ref hmem =>
    of_decide_eq_true (all_eq_true.mp hdistinct ref hmem)
  unfold World.wrapFreshDek
  split
  · exact h
  next p hp =>
    split
    next cmkArn awsRegion hwrapped htarget =>
      have hsub : w.minted ⊆ w.minted ++ [⟨blob, cmkArn, awsRegion⟩] :=
        subset_append_left _ _
      have hok := h.provisions p (List.mem_of_getElem? hp)
      exact { h with
        distinct := by
          intro ref hmem ref' hmem' hid
          rcases mem_append.mp hmem with hmem | hmem <;>
            rcases mem_append.mp hmem' with hmem' | hmem'
          · exact h.distinct ref hmem ref' hmem' hid
          · rw [mem_singleton.mp hmem'] at hid
            exact absurd hid (hblob ref hmem)
          · rw [mem_singleton.mp hmem] at hid
            exact absurd hid.symm (hblob ref' hmem')
          · rw [mem_singleton.mp hmem, mem_singleton.mp hmem']
        row := fun config hconfig => (h.row config hconfig).mono hsub
        provisions := fun q hq => by
          rcases mem_or_eq_of_mem_set hq with hq | rfl
          · exact (h.provisions q hq).mono hsub
          · refine ⟨hok.admitted, fun config hconfig => (hok.read config hconfig).mono hsub, ?_⟩
            intro wrapped hwrapped' target htarget'
            -- what was wrapped was wrapped for the call's own target
            cases hwrapped'
            have hsame : some target = some (cmkArn, awsRegion) := htarget'.symm.trans htarget
            cases hsame
            exact mem_append_right _ mem_cons_self
        caches := fun replica => (h.caches replica).mono hsub
        refs := fun read hread => List.Subset.trans (h.refs read hread) hsub }
    · exact h

theorem Good.setRow (h : Good c w) {config : OrgKmsConfig} (hconfig : Minted w.minted config)
    (hsub : wrappedDeksFor w.row ⊆ wrappedDeksFor (some config)) :
    Good c { w with row := some config } :=
  { h with
    row := by
      rintro _ ⟨⟩
      exact hconfig
    seals := fun call hcall => (h.seals call hcall).mono hsub
    values := fun value hvalue => (h.values value hvalue).mono hsub }

theorem Good.save (h : Good c w) {i : Nat} {retiredAt : String}
    (hup : upToDate w (.saved i retiredAt) = true) : Good c (w.save c i retiredAt) := by
  unfold World.save
  split
  · exact h
  next p hp =>
    split
    · exact h
    next config hentity =>
      have hok := h.provisions p (List.mem_of_getElem? hp)
      obtain ⟨hminted, hkeeps⟩ := hok.entity h.distinct hentity
      split
      · exact h.dropProvision i
      next hinsert =>
        have hsub : wrappedDeksFor w.row ⊆ wrappedDeksFor (some config) := by
          cases hrow : w.row with
          | none => exact nil_subset _
          | some current =>
            cases hread : p.read with
            -- an insert beside a row was refused above
            | none => simp [hrow, hread] at hinsert
            | some read =>
              -- the row still has the keys that were read, and these are kept
              have hkeys : w.row.map OrgKmsConfig.keys = some read.keys := by
                simpa [upToDate, hp, hread] using hup
              rw [hrow] at hkeys
              rw [wrappedDeksFor_congr (some.inj hkeys)]
              exact hkeeps read hread
        exact ((h.setRow hminted hsub).setCache p.replica
          fun _ hentry => absurd hentry not_mem_nil).dropProvision i

theorem Good.dropSeal (h : Good c w) (i : Nat) : Good c { w with seals := w.seals.eraseIdx i } :=
  { h with seals := fun call hcall => h.seals call (mem_of_mem_eraseIdx hcall) }

theorem Good.setStage (h : Good c w) (i : Nat) (call : SealCall) {stage : Stage}
    (hstage : StageOk c (wrappedDeksFor w.row) stage) : Good c (w.setStage i call stage) :=
  { h with
    seals := fun other hother => by
      rcases mem_or_eq_of_mem_set hother with hother | rfl
      · exact h.seals other hother
      · exact hstage }

theorem Good.encryptForOrg (h : Good c w) (replica : Nat) (plaintext : String)
    (entitled : Bool) : Good c (w.encryptForOrg replica plaintext entitled) :=
  { h with
    seals := fun call hcall => by
      rcases mem_append.mp hcall with hcall | hcall
      · exact h.seals call hcall
      · rw [mem_singleton.mp hcall]
        cases entitled <;> trivial }

theorem Good.loadActiveDek (h : Good c w) (i : Nat) (now : Int) :
    Good c (w.loadActiveDek c i now) := by
  unfold World.loadActiveDek
  split
  next replica plaintext attempt hcall =>
    split
    · exact h.setStage i _ trivial
    next ref hactive =>
      have hmem : ref ∈ wrappedDeksFor w.row := by
        obtain ⟨config, hrow, hactive⟩ := bind_eq_some_iff.mp hactive
        rw [hrow]
        split at hactive
        · exact mem_wrappedDeksFor.mpr (.inl hactive)
        · cases hactive
      split
      next dek hcached =>
        refine h.setStage i _ ⟨ref, hmem, rfl, ?_⟩
        exact (h.caches replica).cachedDek h.distinct (h.rowRefs hmem) hcached
      · exact h.setStage i _ hmem
  · exact h

theorem Good.unwrap (h : Good c w) (i : Nat) (ok : Bool) : Good c (w.unwrap c i ok) := by
  unfold World.unwrap
  split
  next replica plaintext ref attempt hcall =>
    have hmem : ref ∈ wrappedDeksFor w.row := h.seals _ (List.mem_of_getElem? hcall)
    split
    next dek hdek =>
      refine h.setStage i _ ⟨hmem, ?_⟩
      split at hdek
      · exact hdek
      · cases hdek
    · exact h.dropSeal i
  · exact h

theorem Good.confirm (h : Good c w) (i : Nat) (now : Int) : Good c (w.confirm c i now) := by
  unfold World.confirm
  split
  next replica plaintext ref dek attempt hcall =>
    obtain ⟨hmem, hdek⟩ : ref ∈ wrappedDeksFor w.row ∧ unwrapDek c ref = some dek :=
      h.seals _ (List.mem_of_getElem? hcall)
    dsimp only
    split
    · have hcache := (h.caches replica).cacheDek (h.rowRefs hmem) hdek
        (fingerprintOf c ref.wrappedDek) now
      exact (h.setCache replica hcache).setStage i _ ⟨ref, hmem, rfl, hdek⟩
    · split
      · exact h.dropSeal i
      · exact h.setStage i _ trivial
  · exact h

theorem Good.returnSealed (h : Good c w) (i : Nat) (iv : List UInt8) :
    Good c (w.returnSealed c i iv) := by
  unfold World.returnSealed
  split
  next replica plaintext active hcall =>
    have hstage : StageOk c (wrappedDeksFor w.row) (.sealing active) :=
      h.seals _ (List.mem_of_getElem? hcall)
    exact { h.dropSeal i with
      values := fun value hvalue => by
        rcases mem_append.mp hvalue with hvalue | hvalue
        · exact h.values value hvalue
        · rw [mem_singleton.mp hvalue]
          cases active with
          | none => exact .inl ⟨iv, rfl⟩
          | some active =>
            obtain ⟨dek, keyId⟩ := active
            obtain ⟨ref, hmem, hid, hdek⟩ := hstage
            cases hid
            exact .inr ⟨ref, hmem, dek, iv, hdek, rfl⟩ }
  · exact h

theorem Good.read (h : Good c w) (replica : Nat) {value : Option StoredValue}
    (hvalue : ∀ v ∈ value, v ∈ w.values) :
    Good c { w with reads := w.reads ++ [⟨replica, wrappedDeksFor w.row, value⟩] } :=
  { h with
    refs := fun read hread => by
      rcases mem_append.mp hread with hread | hread
      · exact h.refs read hread
      · rw [mem_singleton.mp hread]
        exact h.rowRefs
    reads := fun read hread => by
      rcases mem_append.mp hread with hread | hread
      · exact h.reads read hread
      · rw [mem_singleton.mp hread]
        exact fun v hv => h.values v (hvalue v hv) }

theorem Good.decryptForOrg (h : Good c w) (replica k : Nat) :
    Good c (w.decryptForOrg replica k) := by
  unfold World.decryptForOrg
  split
  · exact h
  next value hk =>
    split
    · refine h.read replica ?_
      rintro _ ⟨⟩
      exact List.mem_of_getElem? hk
    · exact h

theorem mem_refs_of_wanted {read : KeyRead} (hmem : ref ∈ read.wanted c) :
    ref ∈ read.refs := by
  unfold KeyRead.wanted at hmem
  split at hmem
  · exact hmem
  · exact List.mem_of_find?_eq_some (mem_toList.mp hmem)

theorem Good.fetch (h : Good c w) (i j : Nat) (now : Int) : Good c (w.fetch c i j now) := by
  unfold World.fetch
  split
  · exact h
  next read hread =>
    split
    · exact h
    next ref href =>
      split
      · exact h
      next dek hdek =>
        have hmem : ref ∈ w.minted := h.refs read (List.mem_of_getElem? hread)
          (mem_refs_of_wanted (List.mem_of_getElem? href))
        exact h.setCache read.replica ((h.caches read.replica).cacheDek hmem hdek _ now)

theorem Good.step (h : Good c w) {e : Event} (hdistinct : distinctBlobs c w e = true)
    (hup : upToDate w e = true) : Good c (step c w e) := by
  cases e with
  | attachCmk replica | rotateCmk replica | setEnabled replica => exact h.provision replica _
  | wrapped i blob => exact h.wrapFreshDek hdistinct
  | saved i retiredAt => exact h.save hup
  | refused i => exact h.dropProvision i
  | encryptForOrg replica plaintext entitled => exact h.encryptForOrg replica plaintext entitled
  | loaded i now => exact h.loadActiveDek i now
  | unwrapped i ok => exact h.unwrap i ok
  | confirmed i now => exact h.confirm i now
  | returned i iv => exact h.returnSealed i iv
  | decryptForOrg replica k => exact h.decryptForOrg replica k
  | warmOrg replica => exact h.read replica (fun _ hv => by cases hv)
  | fetched i j now => exact h.fetch i j now
  | ended i =>
    exact { h with
      refs := fun read hread => h.refs read (mem_of_mem_eraseIdx hread)
      reads := fun read hread => h.reads read (mem_of_mem_eraseIdx hread) }

/-- In a run whose saves are up to date every value stays readable. -/
theorem always_readable (c : Crypto) (hc : c.Sound) (events : List Event)
    (h : Steps.Along (step c) (fun w e => distinctBlobs c w e ∧ upToDate w e) {} events) :
    Steps.Along (step c) (fun w e => Readable c (step c w e)) {} events :=
  Steps.along_of_invariant (Good c) (fun _ _ hgood hstep => hgood.step hstep.1 hstep.2)
    (fun _ _ hgood hstep => (hgood.step hstep.1 hstep.2).readable hc) (good_new c) h

/-! ## A rotation, and two -/

/-- A KMS of one CMK whose blobs are keys, and a cipher that only checks its key. -/
def plainCrypto : Crypto where
  sha256 text := (text.toUTF8.data.toList ++ List.replicate 32 0).take 32
  decrypt cmkArn _ blob :=
    if cmkArn = "cmk" then some ((blob.toUTF8.data.toList ++ List.replicate 32 7).take 32)
    else none
  gcmSeal dek _ plaintext := (dek.take 16, plaintext.toUTF8.data.toList)
  gcmOpen dek _ tag ct := if tag = dek.take 16 then String.fromUTF8? ⟨ct.toArray⟩ else none
  cbcOpen _ _ _ := none
  platformKey := List.replicate 32 9

theorem plainCrypto_sound : plainCrypto.Sound where
  open_seal dek iv plaintext := by
    have hvalid : plaintext.toUTF8.IsValidUTF8 := plaintext.isValidUTF8
    exact (if_pos rfl).trans (dif_pos hvalid)

def attaching : List Event :=
  [.attachCmk 0 "cmk" none none, .wrapped 0 "A", .saved 0 ""]

def sealing : List Event :=
  [.encryptForOrg 1 "token" true, .loaded 0 0, .unwrapped 0 true, .confirmed 0 0, .returned 0 []]

/-- A key is rotated with a value sealed under it, and while another one is being sealed. -/
theorem always_readable_rotation :
    Steps.Along (step plainCrypto) (fun w e => Readable plainCrypto (step plainCrypto w e)) {}
      (attaching ++ sealing ++ [.rotateCmk 0 none none, .wrapped 0 "B", .saved 0 "now"] ++
        sealing ++ [.decryptForOrg 2 0, .warmOrg 2, .fetched 1 1 0]) :=
  always_readable plainCrypto plainCrypto_sound _ (by decide)

/-- Two rotations read one row. The first has saved it, and a value is sealed. -/
def rotatedTwice : List Event :=
  attaching ++ [.rotateCmk 0 none none, .rotateCmk 1 none none, .wrapped 0 "B", .wrapped 1 "C",
    .saved 0 "now"] ++ sealing

/-- A value is sealed between the saves of two rotations: the second saves the row it has read, and
the value's key is gone. -/
theorem second_rotation_loses_key :
    ¬ ∀ c : Crypto, c.Sound → ∀ events : List Event,
      Steps.Along (step c) (fun w e => distinctBlobs c w e) {} events →
      Steps.Along (step c) (fun w e => Readable c (step c w e)) {} events := by
  intro h
  have hrun := h plainCrypto plainCrypto_sound (rotatedTwice ++ [.saved 0 "later"]) (by decide)
  have hlast := (Steps.along_append.mp hrun).2.1
  have hopens := fun value hvalue => hlast.opens value hvalue 0 0
  revert hopens
  decide

end Almyty.Kms
