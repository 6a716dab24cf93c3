import Clinch.RemoteControl.Sound

/-!
# Whether an approved phone can connect

`approve` completes the record of a key that has one, and leaves its `last_seen_at` as it was. A
record is judged inactive by `last_seen_at`, and only without one by the time it was paired.

* `Connects`: a challenge is issued to the phone, and its signature yields a session;
* `approve_ok`: the record that `approve` returns;
* `createChallenge_cases`, `authenticate_ok`: what the record is judged by;
* **`approved_connects_iff`**, `absent_phone_is_expired`.
-/

set_option autoImplicit false

namespace Clinch

open Op PairingState PairingManager

/-- `check_rate_limit` refuses a request. -/
def RateLimited (s : PairingState) (now : DateTime) : Prop :=
  maxSecurityAttemptsPerMinute ≤
    (s.securityAttempts.dropWhile fun attempt => attempt ≤ now - minutes 1).length

/-- The request has a signature of the bytes that the key verifies. -/
def CorrectSignature (c : Crypto) (key : String) (bytes : List UInt8) (request : Authenticate) :
    Prop :=
  ∃ publicKey signature, c.base64Decode key = some publicKey ∧
    c.base64Decode request.signature = some signature ∧ signature.length = 64 ∧
      c.verify publicKey bytes signature = true

/-- A challenge is issued to the phone at `t₁`, and the correct signature of it at `t₂` yields a
session with the capabilities, unless a limit is reached. -/
def Connects (c : Crypto) (s : PairingState) (record : PairedDeviceRecord)
    (capabilities : List Capability) (t₁ t₂ : DateTime) : Prop :=
  ∀ id bytes r s₁, (createChallenge c ⟨record.id⟩ t₁ id bytes).exec s = (r, s₁) →
    r = .error .rateLimited ∨ r = .error .capacity ∨ (∃ challenge, r = .ok challenge) ∧
      ∀ request sessionId cookieToken, request.deviceId = record.id → request.challengeId = id →
        CorrectSignature c record.publicKeyP256Raw bytes request →
          ∀ r' s₂, (authenticate c request t₂ sessionId cookieToken).exec s₁ = (r', s₂) →
            r' = .error .rateLimited ∨ r' = .error .capacity ∨ ∃ session, r' = .ok session ∧
              session.response.device.id = record.id ∧
                session.response.device.capabilities = capabilities

/-- The active record that the key of the claim already has, if there is one, was last seen at most
as long before as a phone may be inactive. -/
def SeenRecently (s : PairingState) (claimId : PairingClaimId) (now : DateTime) : Prop :=
  ∀ claim device seen, s.claims.get claimId = some claim →
    s.registry.devices.find? (hasKey claim.publicKeyP256Raw) = some device →
      device.lastSeenAt = some seen → now - seen ≤ days deviceInactivityLimitDays

variable {c : Crypto} {s₀ s s' : PairingState} {h : List Event} {α : Type}

theorem ensure_false_or_true {b : Bool} {e : PairingError} {f : Unit → Op α}
    {r : Except PairingError α} (h : (ensure b e >>= f).exec s = (r, s')) :
    (b = false ∧ r = .error e ∧ s' = s) ∨ (b = true ∧ (f ()).exec s = (r, s')) := by
  cases b with
  | false =>
    obtain ⟨rfl, rfl⟩ := Prod.mk.inj h
    exact Or.inl ⟨rfl, rfl, rfl⟩
  | true => exact Or.inr ⟨rfl, h⟩

/-! ## Approving -/

theorem find?_updateFirst {p : α → Bool} {f : α → α} {l : List α} {a : α}
    (h : l.find? p = some a) : f a ∈ updateFirst p f l := by
  induction l with
  | nil => exact nomatch h
  | cons b l ih =>
    rw [List.find?_cons] at h
    rw [updateFirst]
    cases hp : p b with
    | true =>
      rw [hp] at h
      obtain rfl := Option.some.inj h
      exact List.mem_cons_self
    | false =>
      rw [hp] at h
      exact List.mem_cons_of_mem _ (ih h)

/-- What the record that `approve` returns is made of. -/
structure Approved (s s' : PairingState) (claimId : PairingClaimId)
    (capabilities : List Capability) (now : DateTime) (record : PairedDeviceRecord) : Prop where
  mem : record ∈ s'.registry.devices
  capabilities : record.capabilities = capabilities
  active : record.revokedAt = none
  pairedAt : record.pairedAt = now
  attempts : s'.securityAttempts = s.securityAttempts
  lastSeenAt : ∃ claim, s.claims.get claimId = some claim ∧ record.lastSeenAt =
    (s.registry.devices.find? (hasKey claim.publicKeyP256Raw)).bind PairedDeviceRecord.lastSeenAt

theorem approve_ok {claimId : PairingClaimId} {capabilities : List Capability} {now : DateTime}
    {id : DeviceId} {record : PairedDeviceRecord}
    (h : (approve claimId capabilities now id).exec s = (.ok record, s')) :
    Approved s s' claimId capabilities now record := by
  simp only [approve, exec_modify_bind] at h
  rcases ensure_cases h with ⟨h, -⟩ | ⟨-, h⟩
  · cases h
  simp only [exec_get_bind] at h
  rcases okOr_cases h with ⟨-, h, -⟩ | ⟨claim, hget, h⟩
  · cases h
  rcases ensure_cases h with ⟨h, -⟩ | ⟨-, h⟩
  · cases h
  have hclaim : s.claims.get claimId = some claim := (HashMap.get_retain_some.mp hget).1
  have hdevices : (s.prune now).registry.devices = s.registry.devices := rfl
  simp only [exec_get_bind, hdevices] at h
  split at h
  · rename_i device hfind
    simp only [approveAgain, setResolution, exec_modify_bind] at h
    obtain ⟨hrecord, rfl⟩ := Prod.mk.inj h
    obtain rfl := Except.ok.inj hrecord
    have hkey := List.find?_some hfind
    simp only [hasKey, Bool.and_eq_true, Option.isNone_iff_eq_none] at hkey
    exact ⟨find?_updateFirst (f := fun record => { record with
        name := claim.deviceName
        platform := claim.platform
        capabilities := capabilities
        pairedAt := now }) hfind, rfl, hkey.1, rfl, rfl, claim, hclaim, by rw [hfind]; rfl⟩
  · rename_i hfind
    simp only [approveNew, exec_get_bind, exec_modify_bind] at h
    rcases ensure_cases h with ⟨h, -⟩ | ⟨-, h⟩
    · cases h
    simp only [setResolution, exec_modify_bind] at h
    obtain ⟨hrecord, rfl⟩ := Prod.mk.inj h
    obtain rfl := Except.ok.inj hrecord
    exact ⟨List.mem_append_right _ List.mem_cons_self, rfl, rfl, rfl, rfl, claim, hclaim,
      by rw [hfind]; rfl⟩

/-- The record is judged by when the key's record was last seen, and a new one by when it was
approved. -/
theorem Approved.isInactive_eq_false {claimId : PairingClaimId} {capabilities : List Capability}
    {now t : DateTime} {record : PairedDeviceRecord}
    (ha : Approved s s' claimId capabilities now record) (ht : t ≤ now + days 90) :
    record.isInactive t = false ↔ SeenRecently s claimId t := by
  obtain ⟨claim, hclaim, hseen⟩ := ha.lastSeenAt
  have hlimit : days deviceInactivityLimitDays = days 90 := rfl
  unfold PairedDeviceRecord.isInactive SeenRecently
  rw [decide_eq_false_iff_not, not_lt, ha.pairedAt]
  constructor
  · intro h claim' device seen hclaim' hfind hlast
    obtain rfl := Option.some.inj (hclaim.symm.trans hclaim')
    rw [hfind, Option.bind_some, hlast] at hseen
    rw [hseen] at h
    exact h
  · intro h
    cases hlast : record.lastSeenAt with
    | none =>
      rw [Option.getD_none, hlimit]
      exact sub_le_iff_le_add'.mpr ht
    | some seen =>
      obtain ⟨device, hfind, hdevice⟩ := Option.bind_eq_some_iff.mp (hseen.symm.trans hlast)
      exact h claim device seen hclaim hfind hdevice

/-! ## Connecting -/

theorem findDevice_of_mem {device : PairedDeviceRecord} (hmem : device ∈ s.registry.devices)
    (hnodup : (s.registry.devices.map PairedDeviceRecord.id).Nodup) :
    s.findDevice device.id = some device := by
  unfold PairingState.findDevice
  cases hfind : s.registry.devices.find? fun other => other.id = device.id with
  | none =>
    have := List.find?_eq_none.mp hfind device hmem
    simp at this
  | some other =>
    have hid := List.find?_some hfind
    rw [decide_eq_true_eq] at hid
    exact congrArg some
      (List.inj_on_of_nodup_map hnodup (List.mem_of_find?_eq_some hfind) hmem hid)

theorem checkRateLimit_cases {now : DateTime} {f : Unit → Op α} {r : Except PairingError α}
    (h : (checkRateLimit now >>= f).exec s = (r, s')) :
    (RateLimited s now ∧ r = .error .rateLimited) ∨ (¬ RateLimited s now ∧
      ∃ attempts, (f ()).exec { s with securityAttempts := attempts } = (r, s')) := by
  rw [checkRateLimit, bind_assoc] at h
  simp only [exec_modify_bind, bind_assoc, exec_get_bind] at h
  rcases ensure_false_or_true h with ⟨hlimit, rfl, -⟩ | ⟨hlimit, h⟩
  · rw [decide_eq_false_iff_not, not_lt] at hlimit
    exact Or.inl ⟨hlimit, rfl⟩
  · rw [decide_eq_true_eq, ← not_le] at hlimit
    exact Or.inr ⟨hlimit, _, h⟩

theorem createChallenge_cases {device : PairedDeviceRecord} {now : DateTime} {id : ChallengeId}
    {bytes : List UInt8} {r : Except PairingError AuthChallenge}
    (hfind : s.findDevice device.id = some device) (hactive : device.revokedAt = none)
    (h : (createChallenge c ⟨device.id⟩ now id bytes).exec s = (r, s')) :
    (RateLimited s now ∧ r = .error .rateLimited) ∨ (¬ RateLimited s now ∧
      ((device.isInactive now = true ∧ r = .error .expired) ∨
        (device.isInactive now = false ∧ (r = .error .capacity ∨ (∃ challenge, r = .ok challenge) ∧
          s'.registry = s.registry ∧ s'.challenges.get id =
            some ⟨device.id, bytes, now + seconds authChallengeTtlSecs⟩)))) := by
  rw [createChallenge] at h
  rcases checkRateLimit_cases h with hlimit | ⟨hlimit, attempts, h⟩
  · exact Or.inl hlimit
  refine Or.inr ⟨hlimit, ?_⟩
  simp only [exec_modify_bind, exec_get_bind] at h
  rcases okOr_cases h with ⟨hnone, -, -⟩ | ⟨device', hfind', h⟩
  · cases hfind.symm.trans hnone
  obtain rfl := Option.some.inj (hfind.symm.trans hfind')
  rw [ensureDeviceActive, bind_assoc] at h
  rcases ensure_false_or_true h with ⟨hrevoked, -, -⟩ | ⟨-, h⟩
  · rw [hactive] at hrevoked
    cases hrevoked
  rcases ensure_false_or_true h with ⟨hinactive, rfl, -⟩ | ⟨hinactive, h⟩
  · exact Or.inl ⟨by simpa using hinactive, rfl⟩
  refine Or.inr ⟨by simpa using hinactive, ?_⟩
  simp only [exec_get_bind] at h
  rcases ensure_cases h with ⟨rfl, -⟩ | ⟨-, h⟩
  · exact Or.inl rfl
  simp only [exec_modify_bind] at h
  obtain ⟨rfl, rfl⟩ := Prod.mk.inj h
  refine Or.inr ⟨⟨_, rfl⟩, rfl, ?_⟩
  rw [HashMap.get_insert, if_pos rfl]

/-- A correct signature yields a session of the device, unless a limit is reached. -/
theorem authenticate_ok {device : PairedDeviceRecord} {request : Authenticate} {now : DateTime}
    {challenge : Challenge} {sessionId : AuthSessionId} {cookieToken : String}
    {r : Except PairingError AuthenticatedSession} (hid : request.deviceId = device.id)
    (hfind : s.findDevice device.id = some device) (hactive : device.revokedAt = none)
    (hinactive : device.isInactive now = false)
    (hget : s.challenges.get request.challengeId = some challenge)
    (hdevice : challenge.deviceId = device.id) (hexpires : now < challenge.expiresAt)
    (hsignature : CorrectSignature c device.publicKeyP256Raw challenge.bytes request)
    (h : (authenticate c request now sessionId cookieToken).exec s = (r, s')) :
    r = .error .rateLimited ∨ r = .error .capacity ∨ ∃ session, r = .ok session ∧
      session.response.device.id = device.id ∧
        session.response.device.capabilities = device.capabilities := by
  obtain ⟨publicKey, signature, hkey, hdecoded, hlength, hverify⟩ := hsignature
  have hvalid : request.validate c = true := by
    rw [Authenticate.validate, hdecoded, Option.any_some, hlength]
    rfl
  rw [authenticate, takeChallenge] at h
  simp only [bind_assoc, pure_bind] at h
  rcases ensure_false_or_true h with ⟨hinvalid, -, -⟩ | ⟨-, h⟩
  · cases hvalid.symm.trans hinvalid
  rcases checkRateLimit_cases h with ⟨-, rfl⟩ | ⟨-, attempts, h⟩
  · exact Or.inl rfl
  simp only [exec_modify_bind, exec_get_bind] at h
  rcases okOr_cases h with ⟨hnone, -, -⟩ | ⟨challenge', hget', h⟩
  · have hretained : (s.prune now).challenges.get request.challengeId = some challenge :=
      HashMap.get_retain_some.mpr ⟨hget, decide_eq_true hexpires⟩
    cases hretained.symm.trans hnone
  obtain rfl := Option.some.inj (hget.symm.trans (HashMap.get_retain_some.mp hget').1)
  simp only [checkSignature, bind_assoc, pure_bind] at h
  rcases ensure_false_or_true h with ⟨hother, -, -⟩ | ⟨-, h⟩
  · rw [hdevice, hid] at hother
    simp at hother
  rcases ensure_false_or_true h with ⟨hlate, -, -⟩ | ⟨-, h⟩
  · rw [decide_eq_false_iff_not] at hlate
    exact absurd hexpires hlate
  simp only [exec_get_bind] at h
  rcases okOr_cases h with ⟨hnone, -, -⟩ | ⟨device', hfind', h⟩
  · rw [hid] at hnone
    cases hfind.symm.trans hnone
  rw [hid] at hfind'
  obtain rfl := Option.some.inj (hfind.symm.trans hfind')
  rw [ensureDeviceActive, bind_assoc] at h
  rcases ensure_false_or_true h with ⟨hrevoked, -, -⟩ | ⟨-, h⟩
  · rw [hactive] at hrevoked
    cases hrevoked
  rcases ensure_false_or_true h with ⟨hlong, -, -⟩ | ⟨-, h⟩
  · rw [hinactive] at hlong
    cases hlong
  rcases okOr_cases h with ⟨hnone, -, -⟩ | ⟨publicKey', hkey', h⟩
  · cases hkey.symm.trans hnone
  rcases okOr_cases h with ⟨hnone, -, -⟩ | ⟨signature', hdecoded', h⟩
  · cases hdecoded.symm.trans hnone
  obtain rfl := Option.some.inj (hkey.symm.trans hkey')
  obtain rfl := Option.some.inj (hdecoded.symm.trans hdecoded')
  rcases ensure_false_or_true h with ⟨hwrong, -, -⟩ | ⟨-, h⟩
  · cases hverify.symm.trans hwrong
  simp only [exec_get_bind] at h
  rcases ensure_cases h with ⟨rfl, -⟩ | ⟨-, h⟩
  · exact Or.inr (Or.inl rfl)
  simp only [exec_modify_bind] at h
  obtain ⟨rfl, rfl⟩ := Prod.mk.inj h
  exact Or.inr (Or.inr ⟨_, rfl, rfl, rfl⟩)

/-- An active record connects at every time at which it is not inactive. -/
theorem connects_of_active {record : PairedDeviceRecord} {t₁ t₂ : DateTime}
    (hfind : s.findDevice record.id = some record) (hactive : record.revokedAt = none)
    (h₁ : record.isInactive t₁ = false) (h₂ : record.isInactive t₂ = false)
    (hlt : t₂ < t₁ + seconds authChallengeTtlSecs) :
    Connects c s record record.capabilities t₁ t₂ := by
  intro id bytes r s₁ hcreate
  rcases createChallenge_cases hfind hactive hcreate with ⟨-, rfl⟩ | ⟨-, ⟨h, -⟩ | ⟨-, h⟩⟩
  · exact Or.inl rfl
  · exact nomatch h₁.symm.trans h
  rcases h with rfl | ⟨hissued, hregistry, hget⟩
  · exact Or.inr (Or.inl rfl)
  refine Or.inr (Or.inr ⟨hissued, fun request sessionId cookieToken hid hchallenge hsignature r' s₂
    hauth => ?_⟩)
  have hfind' : s₁.findDevice record.id = some record := by
    rw [← hfind, PairingState.findDevice, hregistry]
    rfl
  rw [← hchallenge] at hget
  exact authenticate_ok hid hfind' hactive h₂ hget rfl hlt hsignature hauth

/-- **Whether an approved phone can connect.** At the time of the approval it can if and only if the
rate limit is reached, or the record that its key already had was seen recently. It can later for as
long as this is so, and the challenge has not expired. -/
theorem approved_connects_iff {registry : DeviceRegistry} (hnew : new c registry = .ok s₀)
    (hrun : Run c s₀ h s) (claimId : PairingClaimId) {capabilities : List Capability}
    {now : DateTime} (id : DeviceId) (hfresh : Fresh c s₀ h (.approve claimId capabilities now id))
    {record : PairedDeviceRecord}
    (happrove : (approve claimId capabilities now id).exec s = (.ok record, s')) :
    (Connects c s' record capabilities now now ↔ RateLimited s now ∨ SeenRecently s claimId now) ∧
      ∀ t₁ t₂, t₁ ≤ t₂ → t₂ < t₁ + seconds authChallengeTtlSecs → t₂ ≤ now + days 90 →
        SeenRecently s claimId t₂ → Connects c s' record capabilities t₁ t₂ := by
  have ha := approve_ok happrove
  have hfind : s'.findDevice record.id = some record := by
    refine findDevice_of_mem ha.mem ?_
    have hstep := (run_inv hnew (hrun.step _ hfresh)).nodup
    have hs' : (step c s (.approve claimId capabilities now id)).2 = s' :=
      congrArg Prod.snd happrove
    rw [hs', PairingState.view, List.map_map] at hstep
    exact hstep
  have hlimited : RateLimited s' now ↔ RateLimited s now := by rw [RateLimited, ha.attempts]; rfl
  have hnow : now ≤ now + days 90 := by
    have : (0 : ℤ) ≤ days 90 := by decide
    exact le_add_of_nonneg_right this
  refine ⟨⟨fun hconnects => ?_, fun hcondition => ?_⟩, fun t₁ t₂ hle hlt hdays hseen => ?_⟩
  · rw [or_iff_not_imp_left]
    intro hnot
    rw [← ha.isInactive_eq_false hnow, ← Bool.not_eq_true]
    intro hinactive
    generalize hx : (createChallenge c ⟨record.id⟩ now ⟨0⟩ []).exec s' = x
    obtain ⟨r, s₁⟩ := x
    rcases createChallenge_cases hfind ha.active hx with ⟨hlimit, -⟩ | ⟨-, ⟨-, hr⟩ | ⟨h, -⟩⟩
    · exact hnot (hlimited.mp hlimit)
    · rcases hconnects ⟨0⟩ [] r s₁ hx with h | h | ⟨⟨challenge, h⟩, -⟩ <;>
        cases hr.symm.trans h
    · cases hinactive.symm.trans h
  · rcases hcondition with hlimit | hseen
    · intro id bytes r s₁ hcreate
      rcases createChallenge_cases hfind ha.active hcreate with ⟨-, rfl⟩ | ⟨hnot, -⟩
      · exact Or.inl rfl
      · exact absurd (hlimited.mpr hlimit) hnot
    · have hactive := (ha.isInactive_eq_false hnow).mpr hseen
      rw [← ha.capabilities]
      refine connects_of_active hfind ha.active hactive hactive ?_
      have : (0 : ℤ) < seconds authChallengeTtlSecs := by decide
      exact lt_add_of_pos_right now this
  · have hactive := (ha.isInactive_eq_false hdays).mpr hseen
    rw [← ha.capabilities]
    refine connects_of_active hfind ha.active ?_ hactive hlt
    unfold PairedDeviceRecord.isInactive at hactive ⊢
    rw [decide_eq_false_iff_not, not_lt] at hactive ⊢
    exact (sub_le_sub_right hle _).trans hactive

/-! ## A phone that was absent -/

/-- One device, approved and last seen at time 0. -/
def absentRegistry : DeviceRegistry where
  version := registryVersion
  routeId := "abcdefghijklmnopqrstuvwx"
  devices := [⟨⟨1⟩, "phone", .ios, [.view], publicKeyBase64, 0, some 0, none⟩]

theorem new_absentRegistry :
    new runCrypto absentRegistry = .ok ⟨absentRegistry, .empty, .empty, .empty, .empty, []⟩ := by
  have hroute : ¬ (absentRegistry.routeId.utf8ByteSize ≠ 24 ||
      !absentRegistry.routeId.toList.all fun b => b.isLower || b.isDigit) = true := by
    decide
  have hdevices : ¬ (!absentRegistry.devices.all fun device =>
      device.validate runCrypto) = true := by
    decide
  have hvalid : absentRegistry.validate runCrypto = .ok absentRegistry := by
    rw [DeviceRegistry.validate, if_neg (by decide), if_neg hroute, if_neg (by decide),
      if_neg hdevices]
    simp [absentRegistry, DeviceRegistry.retainNewest]
  rw [new, hvalid]
  rfl

/-- The phone scans an invitation. -/
def absentRequest : PairingClaimRequest where
  invitationId := ⟨2⟩
  secret := "abcdefghijklmnopqrstuvwxabcdefghijklmnopqrstuvwx"
  deviceName := "phone"
  platform := .ios
  publicKeyP256Raw := publicKeyBase64

/-- A phone that was absent for a day connects. -/
theorem approved_connects_iff_day : ∃ record s',
    Connects runCrypto s' record [.control] (days 1) (days 1) := by
  have h0 : Run runCrypto ⟨absentRegistry, .empty, .empty, .empty, .empty, []⟩ [] _ := .start
  have h1 := h0.step (.createInvitation "" (days 1) ⟨2⟩ "") (by simp [Fresh])
  have h2 := h1.step (.claim absentRequest (days 1) ⟨3⟩ "") (by simp [Fresh, Call.claimIds])
  refine ⟨_, _, (approved_connects_iff new_absentRegistry h2 ⟨3⟩ ⟨4⟩
    ⟨by decide, by simp [Call.deviceIds]⟩ rfl).1.mpr
      (Or.inr fun claim device seen _ hfind hseen => ?_)⟩
  obtain rfl := List.mem_singleton.mp (List.mem_of_find?_eq_some hfind)
  obtain rfl := Option.some.inj hseen
  decide

/-- **A phone that was absent for more than 90 days** is approved again, and its challenge is
refused as expired. -/
theorem absent_phone_is_expired : ∃ s₀ h s record s', new runCrypto absentRegistry = .ok s₀ ∧
    Run runCrypto s₀ h s ∧ (approve ⟨3⟩ [.control] (days 91) ⟨4⟩).exec s = (.ok record, s') ∧
      ∀ id bytes, ((createChallenge runCrypto ⟨record.id⟩ (days 91) id bytes).exec s').1 =
        .error .expired := by
  have h0 : Run runCrypto ⟨absentRegistry, .empty, .empty, .empty, .empty, []⟩ [] _ := .start
  have h1 := h0.step (.createInvitation "" (days 91) ⟨2⟩ "") (by simp [Fresh])
  have h2 := h1.step (.claim absentRequest (days 91) ⟨3⟩ "") (by simp [Fresh, Call.claimIds])
  exact ⟨_, _, _, _, _, new_absentRegistry, h2, rfl, fun _ _ => rfl⟩

end Clinch
