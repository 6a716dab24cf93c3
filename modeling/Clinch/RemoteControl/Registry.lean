import Clinch.RemoteControl.Sound
import Clinch.StableSort

/-!
# The device registry over a restart

The registry is saved as it is and validated when it is restored: sorted with the newest approval
first, relieved of records whose id or key came before, and sorted again.

* `Frame`: what calls other than `approve` leave of the registry and of the claims;
* `Registered`, `Registered.approve`: what holds of the registry at a time of the clock;
* `retainNewest`: which records the validation retains;
* **`registry_survives`**: what is restored from the snapshot of a run.
-/

set_option autoImplicit false

namespace Clinch

open Op PairingState PairingManager

/-- `PairingManager::restore_registry`. -/
def PairingManager.restoreRegistry (c : Crypto) (registry : DeviceRegistry) : Op Unit :=
  match registry.validate c with
  | .error e => throw e
  | .ok registry => do
    let s ← get
    ensure (s.invitations.len = 0 && s.claims.len = 0 && s.challenges.len = 0 &&
      s.sessions.len = 0) .stateUnavailable
    modify fun s => { s with registry := registry }

/-! ## The clock -/

/-- The time that a call reads from the clock. -/
def Call.now : Call → Option DateTime
  | createInvitation _ now _ _ => some now
  | createAutoApprovingInvitation _ now _ _ => some now
  | claim _ now _ _ => some now
  | cancelInvitation _ => none
  | approve _ _ now _ => some now
  | reject _ now => some now
  | pairingStatus _ now => some now
  | createChallenge _ now _ _ => some now
  | authenticate _ now _ _ => some now
  | authorizeSession _ now => some now
  | connectSession _ now => some now
  | releaseSession _ => none
  | revokeDevice _ now => some now
  | revokeAllDevices now => some now
  | invalidateEphemeralState => none

/-- The last time that was read from the clock. -/
def lastRead (start : DateTime) : List Event → DateTime
  | [] => start
  | e :: h => e.call.now.getD (lastRead start h)

/-- The clock strictly increases. -/
def Ticks (start : DateTime) : List Event → Prop
  | [] => True
  | e :: h => (∀ now ∈ e.call.now, lastRead start h < now) ∧ Ticks start h

/-! ## What calls leave as it is -/

/-- What no call but `approve` changes in a record. -/
def PairedDeviceRecord.stamp (r : PairedDeviceRecord) : DeviceId × String × String × DateTime :=
  (r.id, r.name, r.publicKeyP256Raw, r.pairedAt)

/-- Records for the claim are valid. -/
def Claim.Valid (c : Crypto) (claim : Claim) : Prop :=
  ∀ record : PairedDeviceRecord, record.name = claim.deviceName →
    record.publicKeyP256Raw = claim.publicKeyP256Raw → record.validate c = true

def ClaimsValid (c : Crypto) (s : PairingState) : Prop :=
  ∀ i claim, s.claims.get i = some claim → claim.Valid c

variable {c : Crypto} {s s' s'' : PairingState} {α β : Type}

/-- The registry has the same records, no more of them active, and the claims remain valid. -/
structure Frame (c : Crypto) (s s' : PairingState) : Prop where
  version : s'.registry.version = s.registry.version
  routeId : s'.registry.routeId = s.registry.routeId
  stamps : s'.registry.devices.map PairedDeviceRecord.stamp =
    s.registry.devices.map PairedDeviceRecord.stamp
  active : ∀ r' ∈ s'.registry.devices, r'.revokedAt = none →
    ∃ r ∈ s.registry.devices, r.stamp = r'.stamp ∧ r.revokedAt = none
  claims : ClaimsValid c s → ClaimsValid c s'

namespace Frame

/-- The registry is the same. -/
theorem of_registry (h : s'.registry = s.registry) (hclaims : ClaimsValid c s → ClaimsValid c s') :
    Frame c s s' where
  version := by rw [h]
  routeId := by rw [h]
  stamps := by rw [h]
  active r' hr' hactive := ⟨r', h ▸ hr', rfl, hactive⟩
  claims := hclaims

theorem refl (s : PairingState) : Frame c s s := of_registry rfl id

theorem trans (h : Frame c s s') (h' : Frame c s' s'') : Frame c s s'' where
  version := h'.version.trans h.version
  routeId := h'.routeId.trans h.routeId
  stamps := h'.stamps.trans h.stamps
  active r'' hr'' hactive := by
    obtain ⟨r', hr', hstamp', hactive'⟩ := h'.active r'' hr'' hactive
    obtain ⟨r, hr, hstamp, hactive⟩ := h.active r' hr' hactive'
    exact ⟨r, hr, hstamp.trans hstamp', hactive⟩
  claims hv := h'.claims (h.claims hv)

/-- The registry and the claims are the same. -/
theorem of_eq (h : s'.registry = s.registry) (hclaims : s'.claims = s.claims) : Frame c s s' :=
  of_registry h fun hv i claim hget => hv i claim (hclaims ▸ hget)

theorem prune (s : PairingState) (now : DateTime) : Frame c s (s.prune now) :=
  of_registry rfl fun hv i claim hget => hv i claim (HashMap.get_retain_some.mp hget).1

theorem updateDevice (s : PairingState) (id : DeviceId)
    {f : PairedDeviceRecord → PairedDeviceRecord} (hstamp : ∀ r, (f r).stamp = r.stamp)
    (hactive : ∀ r, (f r).revokedAt = none → r.revokedAt = none) :
    Frame c s (s.updateDevice id f) where
  version := rfl
  routeId := rfl
  stamps := map_updateFirst (fun r _ => hstamp r) _
  active r' hr' h := by
    rcases mem_updateFirst hr' with hr' | ⟨r, hr, -, rfl⟩
    · exact ⟨r', hr', rfl, h⟩
    · exact ⟨r, hr, (hstamp r).symm, hactive r h⟩
  claims hv := hv

end Frame

namespace Op

/-- The call leaves the registry and the claims as `Frame` says, whatever comes of it. -/
def Frames (c : Crypto) (x : Op α) : Prop := ∀ s, Frame c s (x.exec s).2

theorem frames_pure (a : α) : Frames c (pure a : Op α) := fun s => Frame.refl s

theorem frames_throw (e : PairingError) : Frames c (throw e : Op α) := fun s => Frame.refl s

theorem frames_modify {f : PairingState → PairingState} (h : ∀ s, Frame c s (f s)) :
    Frames c (modify f : Op Unit) := h

theorem frames_bind {x : Op α} {f : α → Op β} (hx : Frames c x) (hf : ∀ a, Frames c (f a)) :
    Frames c (x >>= f) := by
  intro s
  have hs := hx s
  rw [exec_bind]
  cases h : x.exec s with
  | mk r s₁ =>
    rw [h] at hs
    cases r with
    | error e => exact hs
    | ok a => exact hs.trans (hf a s₁)

theorem frames_get : Frames c (get : Op PairingState) := fun s => Frame.refl s

theorem frames_ensure (b : Bool) (e : PairingError) : Frames c (ensure b e) := by
  cases b with
  | false => exact frames_throw e
  | true => exact frames_pure ()

theorem frames_okOr (o : Option α) (e : PairingError) : Frames c (okOr o e) := by
  cases o with
  | none => exact frames_throw e
  | some a => exact frames_pure a

theorem frames_checkRateLimit (now : DateTime) : Frames c (checkRateLimit now) :=
  frames_bind (frames_modify fun _ => .of_eq rfl rfl) fun _ =>
    frames_bind frames_get fun _ => frames_bind (frames_ensure _ _) fun _ =>
      frames_modify fun _ => .of_eq rfl rfl

theorem frames_ensureDeviceActive (device : PairedDeviceRecord) (now : DateTime) :
    Frames c (ensureDeviceActive device now) :=
  frames_bind (frames_ensure _ _) fun _ => frames_ensure _ _

theorem frames_setResolution (claimId : PairingClaimId) (resolution : ClaimResolution) :
    Frames c (setResolution claimId resolution) := by
  refine frames_modify fun s => .of_registry rfl fun hv i claim hget => ?_
  rcases HashMap.get_modify_some.mp hget with ⟨-, hold⟩ | ⟨-, claim₀, hold, rfl⟩
  · exact hv i claim hold
  · exact hv i claim₀ hold

theorem frames_insertInvitation (baseUrl : String) (now : DateTime) (autoApprove : Bool)
    (id : PairingInvitationId) (secret : String) :
    Frames c (insertInvitation c baseUrl now autoApprove id secret) :=
  frames_bind (frames_modify fun s => .trans (.prune s now) (.of_eq rfl rfl)) fun _ =>
    frames_bind (frames_modify fun _ => .of_eq rfl rfl) fun _ =>
      frames_bind frames_get fun _ => frames_pure _

theorem frames_takeInvitation (request : PairingClaimRequest) (now : DateTime) :
    Frames c (takeInvitation c request now) :=
  frames_bind (frames_ensure _ _) fun _ => frames_bind (frames_ensure _ _) fun _ =>
    frames_bind (frames_checkRateLimit now) fun _ =>
      frames_bind (frames_modify fun s => .prune s now) fun _ =>
        frames_bind frames_get fun _ => frames_bind (frames_ensure _ _) fun _ =>
          frames_bind frames_get fun _ => frames_bind (frames_okOr _ _) fun _ =>
            frames_bind (frames_modify fun _ => .of_eq rfl rfl) fun _ => frames_pure _

/-- A claim is inserted for a request that was found to be valid. -/
theorem frames_claim (request : PairingClaimRequest) (now : DateTime) (claimId : PairingClaimId)
    (claimSecret : String) : Frames c (claim c request now claimId claimSecret) := by
  by_cases hvalid : request.validate c = true ∧ request.deviceName.toList.any isControl = false
  · refine frames_bind (frames_takeInvitation request now) fun invitation => ?_
    refine frames_bind (frames_ensure _ _) fun _ => frames_bind (frames_ensure _ _) fun _ =>
      frames_bind frames_get fun _ => frames_bind (frames_ensure _ _) fun _ =>
        frames_bind (frames_okOr _ _) fun publicKey => frames_bind (frames_modify fun s => ?_)
          fun _ => frames_pure _
    refine .of_registry rfl fun hv i claim hget => ?_
    rw [HashMap.get_insert] at hget
    split at hget
    · obtain rfl := Option.some.inj hget
      intro record hname hkey
      unfold PairingClaimRequest.validate validateText at hvalid
      simp only [Bool.and_eq_true, decide_eq_true_eq] at hvalid
      obtain ⟨⟨⟨⟨hmin, hmax⟩, -⟩, hpublic⟩, hcontrol⟩ := hvalid
      unfold PairedDeviceRecord.validate
      rw [hname, hkey, hpublic, hcontrol, decide_eq_true hmax]
      simp only [Bool.true_and, Bool.and_true, Bool.not_false, Bool.not_eq_true']
      rw [String.isEmpty, beq_eq_false_iff_ne]
      omega
    · exact hv i claim hget
  · intro s
    have hfail : ((claim c request now claimId claimSecret).exec s).2 = s := by
      unfold PairingManager.claim takeInvitation
      rw [not_and_or, Bool.not_eq_true, Bool.not_eq_false] at hvalid
      rcases hvalid with h | h
      · rw [h]
        rfl
      · rw [h]
        cases request.validate c <;> rfl
    rw [hfail]
    exact .refl s

theorem frames_reject (claimId : PairingClaimId) (now : DateTime) :
    Frames c (reject claimId now) :=
  frames_bind (frames_modify fun s => .prune s now) fun _ => frames_bind frames_get fun _ =>
    frames_bind (frames_okOr _ _) fun _ => frames_bind (frames_ensure _ _) fun _ =>
      frames_setResolution claimId _

theorem frames_pairingStatus (request : PairingStatusRequest) (now : DateTime) :
    Frames c (pairingStatus c request now) := by
  refine frames_bind (frames_ensure _ _) fun _ => frames_bind (frames_modify fun s => .prune s now)
    fun _ => frames_bind frames_get fun s => ?_
  have hlimit : ∀ e : PairingError,
      Frames c (checkRateLimit now >>= fun _ => throw e : Op PairingStatus) := fun e =>
    frames_bind (frames_checkRateLimit now) fun _ => frames_throw e
  split
  · exact hlimit _
  · split
    · split <;> exact frames_pure _
    · exact hlimit _

theorem frames_createChallenge (request : AuthChallengeRequest) (now : DateTime)
    (id : ChallengeId) (bytes : List UInt8) : Frames c (createChallenge c request now id bytes) :=
  frames_bind (frames_checkRateLimit now) fun _ =>
    frames_bind (frames_modify fun s => .prune s now) fun _ => frames_bind frames_get fun _ =>
      frames_bind (frames_okOr _ _) fun device =>
        frames_bind (frames_ensureDeviceActive device now) fun _ => frames_bind frames_get fun _ =>
          frames_bind (frames_ensure _ _) fun _ =>
            frames_bind (frames_modify fun _ => .of_eq rfl rfl) fun _ => frames_pure _

theorem frames_takeChallenge (request : Authenticate) (now : DateTime) :
    Frames c (takeChallenge c request now) :=
  frames_bind (frames_ensure _ _) fun _ => frames_bind (frames_checkRateLimit now) fun _ =>
    frames_bind (frames_modify fun s => .prune s now) fun _ => frames_bind frames_get fun _ =>
      frames_bind (frames_okOr _ _) fun _ =>
        frames_bind (frames_modify fun _ => .of_eq rfl rfl) fun _ => frames_pure _

theorem frames_checkSignature (request : Authenticate) (now : DateTime) (challenge : Challenge) :
    Frames c (checkSignature c request now challenge) :=
  frames_bind (frames_ensure _ _) fun _ => frames_bind (frames_ensure _ _) fun _ =>
    frames_bind frames_get fun _ => frames_bind (frames_okOr _ _) fun device =>
      frames_bind (frames_ensureDeviceActive device now) fun _ =>
        frames_bind (frames_okOr _ _) fun _ => frames_bind (frames_okOr _ _) fun _ =>
          frames_bind (frames_ensure _ _) fun _ => frames_pure _

theorem frames_seen (id : DeviceId) (now : DateTime) :
    Frames c (modify fun s => s.updateDevice id fun device =>
      { device with lastSeenAt := some now } : Op Unit) :=
  frames_modify fun s => .updateDevice s id (fun _ => rfl) fun _ h => h

theorem frames_authenticate (request : Authenticate) (now : DateTime) (sessionId : AuthSessionId)
    (cookieToken : String) : Frames c (authenticate c request now sessionId cookieToken) :=
  frames_bind (frames_takeChallenge request now) fun challenge =>
    frames_bind (frames_checkSignature request now challenge) fun _ =>
      frames_bind frames_get fun _ => frames_bind (frames_ensure _ _) fun _ =>
        frames_bind (frames_modify fun _ => .of_eq rfl rfl) fun _ =>
          frames_bind (frames_seen request.deviceId now) fun _ =>
            frames_bind (frames_modify fun _ => .of_eq rfl rfl) fun _ => frames_pure _

theorem frames_lookupSession (cookieToken : String) (now : DateTime) :
    Frames c (lookupSession c cookieToken now) :=
  frames_bind (frames_modify fun s => .prune s now) fun _ => frames_bind frames_get fun _ =>
    frames_bind (frames_okOr _ _) fun _ => frames_bind frames_get fun _ =>
      frames_bind (frames_okOr _ _) fun device =>
        frames_bind (frames_ensureDeviceActive device now) fun _ => frames_pure _

theorem frames_authorizeSession (cookieToken : String) (now : DateTime) :
    Frames c (authorizeSession c cookieToken now) :=
  frames_bind (frames_lookupSession cookieToken now) fun _ => frames_pure _

theorem frames_connectSession (cookieToken : String) (now : DateTime) :
    Frames c (connectSession c cookieToken now) :=
  frames_bind (frames_lookupSession cookieToken now) fun found =>
    frames_bind (frames_ensure _ _) fun _ => frames_bind frames_get fun _ =>
      frames_bind (frames_ensure _ _) fun _ =>
        frames_bind (frames_modify fun _ => .of_eq rfl rfl) fun _ =>
          frames_bind (frames_seen found.1.deviceId now) fun _ => frames_pure _

theorem frames_revokeDevice (deviceId : DeviceId) (now : DateTime) :
    Frames c (revokeDevice deviceId now) :=
  frames_bind frames_get fun _ => frames_bind (frames_okOr _ _) fun _ =>
    frames_bind (frames_modify fun s => .updateDevice s deviceId (fun _ => rfl) fun _ h =>
      nomatch h) fun _ => frames_modify fun _ => .of_eq rfl rfl

theorem frames_revokeAllDevices (now : DateTime) : Frames c (revokeAllDevices now) := by
  refine frames_modify fun s => ⟨rfl, rfl, ?_, fun r' hr' hactive => ?_, fun _ i claim hget => ?_⟩
  · rw [List.map_map]
    rfl
  · obtain ⟨r, -, rfl⟩ := List.mem_map.mp hr'
    exact nomatch hactive
  · exact nomatch hget

end Op

/-! ## The validation -/

/-- A registry that `DeviceRegistry::validate` accepts. -/
structure Restorable (c : Crypto) (r : DeviceRegistry) : Prop where
  version : r.version = registryVersion
  route : r.routeId.utf8ByteSize = 24 ∧ ∀ b ∈ r.routeId.toList, b.isLower = true ∨ b.isDigit = true
  length : r.devices.length ≤ maxPairedDevices
  valid : ∀ device ∈ r.devices, device.validate c = true

namespace DeviceRegistry

/-- The records that the validation retains. -/
def restored (r : DeviceRegistry) : DeviceRegistry :=
  let newestFirst := r.devices.mergeSort fun a b => decide (b.pairedAt ≤ a.pairedAt)
  let devices := retainNewest [] [] newestFirst
  { r with devices := devices.mergeSort fun a b => decide (a.pairedAt ≤ b.pairedAt) }

theorem validate_eq_ok {r r' : DeviceRegistry} :
    r.validate c = .ok r' ↔ Restorable c r ∧ r.restored = r' := by
  have hroute : (r.routeId.utf8ByteSize ≠ 24 ||
      !r.routeId.toList.all fun b => b.isLower || b.isDigit) = true ↔
      ¬ (r.routeId.utf8ByteSize = 24 ∧
        ∀ b ∈ r.routeId.toList, b.isLower = true ∨ b.isDigit = true) := by
    simp [or_iff_not_imp_left]
  have hvalid : (!r.devices.all fun device => device.validate c) = true ↔
      ¬ ∀ device ∈ r.devices, device.validate c = true := by simp
  unfold validate
  simp only [hroute, hvalid]
  constructor
  · intro h
    split at h
    · exact nomatch h
    rename_i hversion
    split at h
    · exact nomatch h
    rename_i hroute
    split at h
    · exact nomatch h
    rename_i hlength
    split at h
    · exact nomatch h
    rename_i hvalid
    exact ⟨⟨not_not.mp hversion, not_not.mp hroute, not_lt.mp hlength, not_not.mp hvalid⟩,
      Except.ok.inj h⟩
  · rintro ⟨h, rfl⟩
    rw [if_neg (not_not.mpr h.version), if_neg (not_not.mpr h.route), if_neg (not_lt.mpr h.length),
      if_neg (not_not.mpr h.valid)]
    rfl

theorem retainNewest_sublist (ids : List DeviceId) (keys : List String)
    (devices : List PairedDeviceRecord) : (retainNewest ids keys devices).Sublist devices := by
  induction devices generalizing ids keys with
  | nil => exact List.Sublist.refl _
  | cons device devices ih =>
    rw [retainNewest]
    split
    · exact (ih _ _).cons _
    · split
      · exact (ih _ _).cons _
      · exact (ih _ _).cons_cons _

theorem retainNewest_keys (ids : List DeviceId) (keys : List String)
    (devices : List PairedDeviceRecord) :
    ((retainNewest ids keys devices).map PairedDeviceRecord.publicKeyP256Raw).Nodup ∧
      ∀ r ∈ retainNewest ids keys devices, r.publicKeyP256Raw ∉ keys := by
  induction devices generalizing ids keys with
  | nil => exact ⟨List.nodup_nil, fun _ hr => nomatch hr⟩
  | cons device devices ih =>
    rw [retainNewest]
    split
    · exact ih ids keys
    · split
      · exact ih _ keys
      · rename_i hkey
        obtain ⟨hnodup, hkeys⟩ := ih (device.id :: ids) (device.publicKeyP256Raw :: keys)
        rw [List.map_cons, List.nodup_cons, List.forall_mem_cons]
        refine ⟨⟨fun hmem => ?_, hnodup⟩, hkey, fun r hr hmem =>
          hkeys r hr (List.mem_cons_of_mem _ hmem)⟩
        obtain ⟨r, hr, heq⟩ := List.mem_map.mp hmem
        exact hkeys r hr (heq ▸ List.mem_cons_self)

/-- A record is retained whose id and key do not come before it. -/
theorem mem_retainNewest {ids : List DeviceId} {keys : List String}
    {device : PairedDeviceRecord} {before after : List PairedDeviceRecord}
    (hid : device.id ∉ ids) (hkey : device.publicKeyP256Raw ∉ keys)
    (hbefore : ∀ other ∈ before, other.id ≠ device.id ∧
      other.publicKeyP256Raw ≠ device.publicKeyP256Raw) :
    device ∈ retainNewest ids keys (before ++ device :: after) := by
  induction before generalizing ids keys with
  | nil =>
    rw [List.nil_append, retainNewest, if_neg hid, if_neg hkey]
    exact List.mem_cons_self
  | cons other before ih =>
    rw [List.forall_mem_cons] at hbefore
    have hid' : device.id ∉ other.id :: ids := by simp [hid, Ne.symm hbefore.1.1]
    have hkey' : device.publicKeyP256Raw ∉ other.publicKeyP256Raw :: keys := by
      simp [hkey, Ne.symm hbefore.1.2]
    rw [List.cons_append, retainNewest]
    split
    · exact ih hid hkey hbefore.2
    · split
      · exact ih hid' hkey hbefore.2
      · exact List.mem_cons_of_mem _ (ih hid' hkey' hbefore.2)

/-- Nothing is dropped where no id and no key comes twice. -/
theorem retainNewest_eq_self {ids : List DeviceId} {keys : List String}
    {devices : List PairedDeviceRecord} (hids : (devices.map PairedDeviceRecord.id).Nodup)
    (hkeys : (devices.map PairedDeviceRecord.publicKeyP256Raw).Nodup)
    (hseen : ∀ device ∈ devices, device.id ∉ ids ∧ device.publicKeyP256Raw ∉ keys) :
    retainNewest ids keys devices = devices := by
  induction devices generalizing ids keys with
  | nil => rfl
  | cons device devices ih =>
    rw [List.map_cons, List.nodup_cons] at hids hkeys
    rw [List.forall_mem_cons] at hseen
    rw [retainNewest, if_neg hseen.1.1, if_neg hseen.1.2]
    refine congrArg (device :: ·) (ih hids.2 hkeys.2 fun other hother => ?_)
    have hid : other.id ≠ device.id := fun h =>
      hids.1 (h ▸ List.mem_map_of_mem (f := PairedDeviceRecord.id) hother)
    have hkey : other.publicKeyP256Raw ≠ device.publicKeyP256Raw := fun h =>
      hkeys.1 (h ▸ List.mem_map_of_mem (f := PairedDeviceRecord.publicKeyP256Raw) hother)
    simp [hid, hkey, hseen.2 other hother]

theorem mem_restored {r : DeviceRegistry} {device : PairedDeviceRecord}
    (h : device ∈ r.restored.devices) : device ∈ r.devices :=
  List.mem_mergeSort.mp ((retainNewest_sublist _ _ _).subset (List.mem_mergeSort.mp h))

theorem nodup_restored (r : DeviceRegistry) :
    (r.restored.devices.map PairedDeviceRecord.id).Nodup ∧
      (r.restored.devices.map PairedDeviceRecord.publicKeyP256Raw).Nodup :=
  ⟨((List.mergeSort_perm _ _).map _).nodup_iff.mpr (retainNewest_nodup _ _ _).1,
    ((List.mergeSort_perm _ _).map _).nodup_iff.mpr (retainNewest_keys _ _ _).1⟩

/-- **Validating the result again changes nothing.** -/
theorem restored_restored (r : DeviceRegistry) : r.restored.restored = r.restored := by
  have hsorted : r.restored.devices.Pairwise fun a b => a.pairedAt ≤ b.pairedAt :=
    pairwise_mergeSort_key PairedDeviceRecord.pairedAt _
  obtain ⟨hids, hkeys⟩ := r.nodup_restored
  have hperm := List.mergeSort_perm r.restored.devices fun a b => decide (b.pairedAt ≤ a.pairedAt)
  have hretain := @retainNewest_eq_self [] [] _ ((hperm.map _).nodup_iff.mpr hids)
    ((hperm.map _).nodup_iff.mpr hkeys) fun _ _ => ⟨List.not_mem_nil, List.not_mem_nil⟩
  have hflip := mergeSort_mergeSort_flip PairedDeviceRecord.pairedAt hsorted
  rw [← hretain] at hflip
  exact congrArg (fun devices => { r.restored with devices }) hflip

end DeviceRegistry

theorem Restorable.restored {r : DeviceRegistry} (h : Restorable c r) :
    Restorable c r.restored where
  version := h.version
  route := h.route
  length := by
    refine le_trans ?_ h.length
    unfold DeviceRegistry.restored
    rw [List.length_mergeSort]
    exact (DeviceRegistry.retainNewest_sublist _ _ _).length_le.trans (List.length_mergeSort _).le
  valid device hdevice := h.valid device (DeviceRegistry.mem_restored hdevice)

/-! ## Runs -/

/-- What holds of the registry at the time `t` of the clock. -/
structure Registered (c : Crypto) (t : DateTime) (s : PairingState) : Prop where
  restorable : Restorable c s.registry
  paired : ∀ device ∈ s.registry.devices, device.pairedAt ≤ t
  /-- An active record is the newest one of its key. -/
  newest : ∀ device ∈ s.registry.devices, ∀ other ∈ s.registry.devices, device.revokedAt = none →
    other.publicKeyP256Raw = device.publicKeyP256Raw →
      other.id = device.id ∨ other.pairedAt < device.pairedAt
  claims : ClaimsValid c s

namespace Registered

variable {t t' now : DateTime}

theorem mono (hr : Registered c t s) (h : t ≤ t') : Registered c t' s :=
  { hr with paired := fun device hdevice => (hr.paired device hdevice).trans h }

theorem stamp_eq {r r' : PairedDeviceRecord} (h : r.stamp = r'.stamp) :
    r.id = r'.id ∧ r.name = r'.name ∧ r.publicKeyP256Raw = r'.publicKeyP256Raw ∧
      r.pairedAt = r'.pairedAt := by
  simpa [PairedDeviceRecord.stamp] using h

theorem frame (hr : Registered c t s) (hf : Frame c s s') : Registered c t s' := by
  have hold : ∀ r' ∈ s'.registry.devices, ∃ r ∈ s.registry.devices, r.stamp = r'.stamp := by
    intro r' hr'
    have hmem := List.mem_map_of_mem (f := PairedDeviceRecord.stamp) hr'
    rw [hf.stamps] at hmem
    exact List.mem_map.mp hmem
  refine ⟨⟨?_, ?_, ?_, ?_⟩, ?_, ?_, hf.claims hr.claims⟩
  · rw [hf.version]
    exact hr.restorable.version
  · rw [hf.routeId]
    exact hr.restorable.route
  · have hlen := congrArg List.length hf.stamps
    rw [List.length_map, List.length_map] at hlen
    rw [hlen]
    exact hr.restorable.length
  · intro r' hr'
    obtain ⟨r, hmem, hstamp⟩ := hold r' hr'
    obtain ⟨-, hname, hkey, -⟩ := stamp_eq hstamp
    have hvalid := hr.restorable.valid r hmem
    unfold PairedDeviceRecord.validate at hvalid ⊢
    rwa [hname, hkey] at hvalid
  · intro r' hr'
    obtain ⟨r, hmem, hstamp⟩ := hold r' hr'
    exact (stamp_eq hstamp).2.2.2 ▸ hr.paired r hmem
  · intro device' hdevice' other' hother' hactive hkey
    obtain ⟨device, hdevice, hstamp, hactive⟩ := hf.active device' hdevice' hactive
    obtain ⟨other, hother, hstamp'⟩ := hold other' hother'
    obtain ⟨hid, -, hkey₁, hpaired⟩ := stamp_eq hstamp
    obtain ⟨hid', -, hkey₂, hpaired'⟩ := stamp_eq hstamp'
    have := hr.newest device hdevice other hother hactive (by rw [hkey₁, hkey₂, hkey])
    rwa [hid, hid', hpaired, hpaired'] at this

theorem makeRoom_length (rounds : ℕ) (devices : List PairedDeviceRecord)
    (h : devices.length ≤ rounds) (hroom : (makeRoom rounds devices).2 = true) :
    (makeRoom rounds devices).1.length < maxPairedDevices := by
  induction rounds generalizing devices with
  | zero =>
    obtain rfl := List.length_eq_zero_iff.mp (Nat.le_zero.mp h)
    decide
  | succ rounds ih =>
    rw [makeRoom] at hroom ⊢
    split
    · rename_i hfull
      rw [if_pos hfull] at hroom
      split
      · rename_i index hindex
        rw [hindex] at hroom
        obtain ⟨hlt, -⟩ := List.findIdx?_eq_some_iff_getElem.mp hindex
        refine ih _ ?_ hroom
        rw [List.length_eraseIdx_of_lt hlt]
        omega
      · rename_i hnone
        rw [hnone] at hroom
        cases hroom
    · exact not_le.mp ‹_›

/-- The record of a key that is approved again becomes the newest one of the key. -/
theorem approveAgain (hr : Registered c t s) (ht : t < now) (claimId : PairingClaimId)
    {claim : Claim} (hvalid : claim.Valid c) (capabilities : List Capability)
    (device : PairedDeviceRecord) : Registered c now
      ((approveAgain claimId claim capabilities now device).exec s).2 := by
  let refresh := fun record : PairedDeviceRecord =>
    { record with
      name := claim.deviceName
      platform := claim.platform
      capabilities := capabilities
      pairedAt := now }
  suffices h : Registered c now { s with
      registry.devices := updateFirst (hasKey claim.publicKeyP256Raw) refresh s.registry.devices }
    from h.frame (frames_setResolution claimId _ _)
  -- a record that was refreshed is active and has the claim's key
  have hkeyed : ∀ r, hasKey claim.publicKeyP256Raw r = true →
      r.revokedAt = none ∧ r.publicKeyP256Raw = claim.publicKeyP256Raw := by
    intro r h
    simpa [hasKey] using h
  refine ⟨⟨hr.restorable.version, hr.restorable.route, ?_, fun r hmem => ?_⟩, fun r hmem => ?_,
    fun r hmem other hother hactive hkey => ?_, hr.claims⟩
  · exact (length_updateFirst _).le.trans hr.restorable.length
  · rcases mem_updateFirst hmem with hmem | ⟨r, -, hp, rfl⟩
    · exact hr.restorable.valid r hmem
    · exact hvalid _ rfl (hkeyed r hp).2
  · rcases mem_updateFirst hmem with hmem | ⟨r, -, -, rfl⟩
    · exact (hr.paired r hmem).trans ht.le
    · exact le_rfl
  · rcases mem_updateFirst hmem with hmem | ⟨r₀, hmem₀, hp, rfl⟩ <;>
      rcases mem_updateFirst hother with hother | ⟨other₀, hother₀, hp', rfl⟩
    · exact hr.newest r hmem other hother hactive hkey
    · -- both are active, so each is the newest of the key
      obtain ⟨hactive', hkey'⟩ := hkeyed other₀ hp'
      rcases hr.newest r hmem other₀ hother₀ hactive hkey with h | h
      · exact Or.inl h
      · rcases hr.newest other₀ hother₀ r hmem hactive' hkey.symm with h' | h'
        · exact Or.inl h'.symm
        · exact absurd (h.trans h') (lt_irrefl _)
    · exact Or.inr ((hr.paired other hother).trans_lt ht)
    · obtain ⟨hactive', hkey'⟩ := hkeyed other₀ hp'
      obtain ⟨hactive₀, hkey₀⟩ := hkeyed r₀ hp
      rcases hr.newest r₀ hmem₀ other₀ hother₀ hactive₀ (hkey'.trans hkey₀.symm) with h | h
      · exact Or.inl h
      · rcases hr.newest other₀ hother₀ r₀ hmem₀ hactive' (hkey₀.trans hkey'.symm) with h' | h'
        · exact Or.inl h'.symm
        · exact absurd (h.trans h') (lt_irrefl _)

/-- A key without an active record gets one, which is the newest one of the key. -/
theorem approveNew (hr : Registered c t s) (ht : t < now) (claimId : PairingClaimId)
    {claim : Claim} (hvalid : claim.Valid c) (capabilities : List Capability) (id : DeviceId)
    (hnone : s.registry.devices.find? (hasKey claim.publicKeyP256Raw) = none) :
    Registered c now ((approveNew claimId claim capabilities now id).exec s).2 := by
  obtain ⟨hsub, -⟩ := makeRoom_spec s.registry.devices.length s.registry.devices
  have hlength := makeRoom_length s.registry.devices.length s.registry.devices le_rfl
  have hkeyless : ∀ r ∈ s.registry.devices, r.revokedAt = none →
      r.publicKeyP256Raw ≠ claim.publicKeyP256Raw := by
    intro r hmem hactive hkey
    exact List.find?_eq_none.mp hnone r hmem (by simp [hasKey, hactive, hkey])
  generalize hx : (PairingManager.approveNew claimId claim capabilities now id).exec s = x
  obtain ⟨result, s'⟩ := x
  simp only [PairingManager.approveNew, exec_get_bind, exec_modify_bind] at hx
  generalize hroom : makeRoom s.registry.devices.length s.registry.devices = room at hsub hlength hx
  have hshrunk : Registered c now { s with registry.devices := room.1 } := by
    refine ⟨⟨hr.restorable.version, hr.restorable.route, hsub.length_le.trans hr.restorable.length,
      fun r hmem => hr.restorable.valid r (hsub.subset hmem)⟩,
      fun r hmem => (hr.paired r (hsub.subset hmem)).trans ht.le,
      fun r hmem other hother => hr.newest r (hsub.subset hmem) other (hsub.subset hother),
      hr.claims⟩
  rcases ensure_cases hx with ⟨-, rfl⟩ | ⟨hok, hx⟩
  · exact hshrunk
  simp only [setResolution, exec_modify_bind] at hx
  obtain ⟨-, rfl⟩ := Prod.mk.inj hx
  refine ⟨⟨hr.restorable.version, hr.restorable.route, ?_, fun r hmem => ?_⟩, fun r hmem => ?_,
    fun r hmem other hother hactive hkey => ?_,
    (frames_setResolution claimId _ { s with registry.devices := room.1 }).claims hr.claims⟩
  · show (room.1 ++ [_]).length ≤ _
    have := hlength hok
    simp only [List.length_append, List.length_singleton]
    omega
  · rcases List.mem_append.mp hmem with hmem | hmem
    · exact hshrunk.restorable.valid r hmem
    · obtain rfl := List.mem_singleton.mp hmem
      exact hvalid _ rfl rfl
  · rcases List.mem_append.mp hmem with hmem | hmem
    · exact hshrunk.paired r hmem
    · obtain rfl := List.mem_singleton.mp hmem
      exact le_rfl
  · rcases List.mem_append.mp hmem with hmem | hmem <;>
      rcases List.mem_append.mp hother with hother | hother
    · exact hshrunk.newest r hmem other hother hactive hkey
    · obtain rfl := List.mem_singleton.mp hother
      exact absurd hkey.symm (hkeyless r (hsub.subset hmem) hactive)
    · obtain rfl := List.mem_singleton.mp hmem
      exact Or.inr ((hr.paired other (hsub.subset hother)).trans_lt ht)
    · obtain rfl := List.mem_singleton.mp hmem
      obtain rfl := List.mem_singleton.mp hother
      exact Or.inl rfl

theorem approve (hr : Registered c t s) (ht : t < now) (claimId : PairingClaimId)
    (capabilities : List Capability) (id : DeviceId) :
    Registered c now ((approve claimId capabilities now id).exec s).2 := by
  have hpruned := (hr.frame (Frame.prune s now))
  generalize hx : (PairingManager.approve claimId capabilities now id).exec s = x
  obtain ⟨result, s'⟩ := x
  simp only [PairingManager.approve, exec_modify_bind] at hx
  rcases ensure_cases hx with ⟨-, rfl⟩ | ⟨-, hx⟩
  · exact hpruned.mono ht.le
  simp only [exec_get_bind] at hx
  rcases okOr_cases hx with ⟨-, -, rfl⟩ | ⟨claim, hget, hx⟩
  · exact hpruned.mono ht.le
  rcases ensure_cases hx with ⟨-, rfl⟩ | ⟨-, hx⟩
  · exact hpruned.mono ht.le
  have hvalid := hpruned.claims claimId claim hget
  simp only [exec_get_bind] at hx
  split at hx
  · rename_i device _
    have := hpruned.approveAgain ht claimId hvalid capabilities device
    rwa [hx] at this
  · rename_i hnone
    have := hpruned.approveNew ht claimId hvalid capabilities id hnone
    rwa [hx] at this

theorem step (hr : Registered c t s) (call : Call) (ht : ∀ now ∈ call.now, t < now) :
    Registered c (call.now.getD t) (step c s call).2 := by
  cases call with
  | createInvitation baseUrl now id secret =>
    exact (hr.frame (frames_insertInvitation baseUrl now false id secret s)).mono (ht now rfl).le
  | createAutoApprovingInvitation baseUrl now id secret =>
    exact (hr.frame (frames_insertInvitation baseUrl now true id secret s)).mono (ht now rfl).le
  | claim request now claimId claimSecret =>
    exact (hr.frame (frames_claim request now claimId claimSecret s)).mono (ht now rfl).le
  | cancelInvitation id => exact hr.frame (.of_eq rfl rfl)
  | approve claimId capabilities now id => exact hr.approve (ht now rfl) claimId capabilities id
  | reject claimId now => exact (hr.frame (frames_reject claimId now s)).mono (ht now rfl).le
  | pairingStatus request now =>
    exact (hr.frame (frames_pairingStatus request now s)).mono (ht now rfl).le
  | createChallenge request now id bytes =>
    exact (hr.frame (frames_createChallenge request now id bytes s)).mono (ht now rfl).le
  | authenticate request now sessionId cookieToken =>
    exact (hr.frame (frames_authenticate request now sessionId cookieToken s)).mono (ht now rfl).le
  | authorizeSession cookieToken now =>
    exact (hr.frame (frames_authorizeSession cookieToken now s)).mono (ht now rfl).le
  | connectSession cookieToken now =>
    exact (hr.frame (frames_connectSession cookieToken now s)).mono (ht now rfl).le
  | releaseSession id => exact hr.frame (.of_eq rfl rfl)
  | revokeDevice deviceId now =>
    exact (hr.frame (frames_revokeDevice deviceId now s)).mono (ht now rfl).le
  | revokeAllDevices now => exact (hr.frame (frames_revokeAllDevices now s)).mono (ht now rfl).le
  | invalidateEphemeralState =>
    exact hr.frame (.of_registry rfl fun _ _ _ hget => nomatch hget)

end Registered

variable {s₀ : PairingState} {h : List Event} {start : DateTime}

theorem new_eq_ok {registry : DeviceRegistry} (hnew : new c registry = .ok s₀) :
    Restorable c registry ∧ s₀ = ⟨registry.restored, .empty, .empty, .empty, .empty, []⟩ := by
  rw [new] at hnew
  cases hv : registry.validate c with
  | error e =>
    rw [hv] at hnew
    cases hnew
  | ok registry' =>
    rw [hv] at hnew
    obtain ⟨hrestorable, rfl⟩ := DeviceRegistry.validate_eq_ok.mp hv
    exact ⟨hrestorable, (Except.ok.inj hnew).symm⟩

theorem registered_new {registry : DeviceRegistry} (hnew : new c registry = .ok s₀)
    (hstart : ∀ device ∈ registry.devices, device.pairedAt ≤ start) : Registered c start s₀ := by
  obtain ⟨hrestorable, rfl⟩ := new_eq_ok hnew
  refine ⟨hrestorable.restored, fun device hdevice =>
    hstart device (DeviceRegistry.mem_restored hdevice),
    fun device hdevice other hother _ hkey => Or.inl ?_, fun _ _ hget => nomatch hget⟩
  have heq := List.inj_on_of_nodup_map registry.nodup_restored.2 hother hdevice hkey
  rw [heq]

/-- **The registry of every run is registered at the last time that the clock was read.** -/
theorem run_registered {registry : DeviceRegistry} (hnew : new c registry = .ok s₀)
    (hstart : ∀ device ∈ registry.devices, device.pairedAt ≤ start) (hrun : Run c s₀ h s)
    (hticks : Ticks start h) : Registered c (lastRead start h) s := by
  induction hrun with
  | start => exact registered_new hnew hstart
  | step call _ _ ih => exact (ih hticks.2).step call hticks.1

/-- **The registry survives a restart.** With a clock that strictly increases, the snapshot of every
run is valid. What is restored from it are records of the snapshot, with every active one among them
and no other record of a device that was revoked. Restoring it again changes nothing. -/
theorem registry_survives {registry : DeviceRegistry} (hnew : new c registry = .ok s₀)
    (hstart : ∀ device ∈ registry.devices, device.pairedAt ≤ start) (hrun : Run c s₀ h s)
    (hticks : Ticks start h) :
    ∃ restored, s.registry.validate c = .ok restored ∧
      ((restoreRegistry c s.registry).exec
        ⟨registry, .empty, .empty, .empty, .empty, []⟩).2.registry = restored ∧
      (∀ device ∈ s.registry.devices, device.revokedAt = none → device ∈ restored.devices) ∧
      (∀ device ∈ restored.devices, device ∈ s.registry.devices ∧
        ∀ revoked ∈ s.registry.devices, revoked.revokedAt ≠ none → device.id = revoked.id →
          device.revokedAt ≠ none) ∧
      restored.routeId = s.registry.routeId ∧ restored.validate c = .ok restored := by
  have hr := run_registered hnew hstart hrun hticks
  have hids : (s.registry.devices.map PairedDeviceRecord.id).Nodup := by
    have := (run_inv hnew hrun).nodup
    rwa [PairingState.view, List.map_map] at this
  have hvalid := DeviceRegistry.validate_eq_ok.mpr ⟨hr.restorable, rfl⟩
  refine ⟨s.registry.restored, hvalid, ?_, fun device hdevice hactive => ?_,
    fun device hdevice => ⟨DeviceRegistry.mem_restored hdevice, fun revoked hrevoked hne hid => ?_⟩,
    rfl, DeviceRegistry.validate_eq_ok.mpr
      ⟨hr.restorable.restored, s.registry.restored_restored⟩⟩
  · rw [restoreRegistry, hvalid]
    rfl
  · have hperm := List.mergeSort_perm s.registry.devices fun a b => decide (b.pairedAt ≤ a.pairedAt)
    have hsorted := pairwise_mergeSort_flip PairedDeviceRecord.pairedAt s.registry.devices
    obtain ⟨before, after, heq⟩ := List.append_of_mem (hperm.mem_iff.mpr hdevice)
    have hnodup : ((before ++ device :: after).map PairedDeviceRecord.id).Nodup :=
      heq ▸ (hperm.map _).nodup_iff.mpr hids
    rw [heq, List.pairwise_append] at hsorted
    refine List.mem_mergeSort.mpr ?_
    show device ∈ DeviceRegistry.retainNewest [] [] (List.mergeSort _ _)
    rw [heq]
    refine DeviceRegistry.mem_retainNewest List.not_mem_nil List.not_mem_nil fun other hother => ?_
    have hmem : other ∈ s.registry.devices :=
      hperm.mem_iff.mp (heq ▸ List.mem_append_left _ hother)
    have hid : other.id ≠ device.id := by
      rw [List.map_append, List.nodup_append] at hnodup
      exact hnodup.2.2 _ (List.mem_map_of_mem hother) _ (List.mem_map_of_mem List.mem_cons_self)
    refine ⟨hid, fun hkey => ?_⟩
    rcases hr.newest device hdevice other hmem hactive hkey with h | h
    · exact hid h
    · exact absurd (hsorted.2.2 other hother device List.mem_cons_self) (not_le.mpr h)
  · rw [List.inj_on_of_nodup_map hids (DeviceRegistry.mem_restored hdevice) hrevoked hid]
    exact hne

/-- A device that was revoked is not active after the restart. -/
theorem registry_survives_revoked : ∃ (s : PairingState) (restored : DeviceRegistry),
    s.registry.validate runCrypto = .ok restored ∧
      (∃ device ∈ s.registry.devices, device.id = ⟨1⟩) ∧
      ∀ device ∈ restored.devices, device.id = ⟨1⟩ → device.revokedAt ≠ none := by
  have h0 : Run runCrypto ⟨runRegistry, .empty, .empty, .empty, .empty, []⟩ [] _ := .start
  have h1 := h0.step (.revokeDevice ⟨1⟩ 1) trivial
  have hstart : ∀ device ∈ runRegistry.devices, device.pairedAt ≤ (0 : ℤ) := by decide
  have hticks : ∀ now ∈ (Call.revokeDevice ⟨1⟩ 1).now, lastRead 0 [] < now := by
    rintro _ ⟨⟩
    decide
  obtain ⟨restored, hvalid, -, -, hrestored, -⟩ :=
    registry_survives new_runRegistry hstart h1 ⟨hticks, trivial⟩
  refine ⟨_, restored, hvalid, ⟨_, List.mem_cons_self, rfl⟩, fun device hdevice hid => ?_⟩
  exact (hrestored device hdevice).2 _ List.mem_cons_self (nomatch ·) hid

end Clinch
