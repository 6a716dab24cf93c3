import Clinch.RemoteControl.Effect

/-!
# Runs of the pairing manager

A run is a sequence of calls in any order, with the events newest first. What a call draws at
random is new: no earlier call used it; and the SHA-256 digests of the cookie tokens of a run do
not collide.

* `Call`, `Response`, `step`, `Event`, `Fresh`, `Run`;
* `ActiveKey`, `Issued`, `SignedIn`: what the history says about devices, challenges and
  sessions;
* `AuthorizationsGrounded`, `RevokedForGood`, `ConsumedOnce`, `OneSocketPerCookie`: what holds of
  a history.
-/

set_option autoImplicit false

namespace Clinch

open PairingManager

inductive Call
  | createInvitation (baseUrl : String) (now : DateTime) (id : PairingInvitationId)
      (secret : String)
  | createAutoApprovingInvitation (baseUrl : String) (now : DateTime) (id : PairingInvitationId)
      (secret : String)
  | claim (request : PairingClaimRequest) (now : DateTime) (claimId : PairingClaimId)
      (claimSecret : String)
  | cancelInvitation (invitationId : PairingInvitationId)
  | approve (claimId : PairingClaimId) (capabilities : List Capability) (now : DateTime)
      (id : DeviceId)
  | reject (claimId : PairingClaimId) (now : DateTime)
  | pairingStatus (request : PairingStatusRequest) (now : DateTime)
  | createChallenge (request : AuthChallengeRequest) (now : DateTime) (id : ChallengeId)
      (bytes : List UInt8)
  | authenticate (request : Authenticate) (now : DateTime) (sessionId : AuthSessionId)
      (cookieToken : String)
  | authorizeSession (cookieToken : String) (now : DateTime)
  | connectSession (cookieToken : String) (now : DateTime)
  | releaseSession (sessionId : AuthSessionId)
  | revokeDevice (deviceId : DeviceId) (now : DateTime)
  | revokeAllDevices (now : DateTime)
  | invalidateEphemeralState

inductive Response
  | invitation (result : Except PairingError PairingInvitation)
  | receipt (result : Except PairingError PairingClaimReceipt)
  | record (result : Except PairingError PairedDeviceRecord)
  | status (result : Except PairingError PairingStatus)
  | challenge (result : Except PairingError AuthChallenge)
  | authenticated (result : Except PairingError AuthenticatedSession)
  | authorization (result : Except PairingError SessionAuthorization)
  | unit (result : Except PairingError Unit)

/-- The response to a call and the state after it. -/
def step (c : Crypto) (s : PairingState) : Call → Response × PairingState
  | .createInvitation baseUrl now invitationId secret =>
    ((createInvitation c baseUrl now invitationId secret).exec s).map .invitation id
  | .createAutoApprovingInvitation baseUrl now invitationId secret =>
    ((createAutoApprovingInvitation c baseUrl now invitationId secret).exec s).map .invitation id
  | .claim request now claimId claimSecret =>
    ((claim c request now claimId claimSecret).exec s).map .receipt id
  | .cancelInvitation invitationId => ((cancelInvitation invitationId).exec s).map .unit id
  | .approve claimId capabilities now deviceId =>
    ((approve claimId capabilities now deviceId).exec s).map .record id
  | .reject claimId now => ((reject claimId now).exec s).map .unit id
  | .pairingStatus request now => ((pairingStatus c request now).exec s).map .status id
  | .createChallenge request now challengeId bytes =>
    ((createChallenge c request now challengeId bytes).exec s).map .challenge id
  | .authenticate request now sessionId cookieToken =>
    ((authenticate c request now sessionId cookieToken).exec s).map .authenticated id
  | .authorizeSession cookieToken now =>
    ((authorizeSession c cookieToken now).exec s).map .authorization id
  | .connectSession cookieToken now =>
    ((connectSession c cookieToken now).exec s).map .authorization id
  | .releaseSession sessionId => ((releaseSession sessionId).exec s).map .unit id
  | .revokeDevice deviceId now => ((revokeDevice deviceId now).exec s).map .unit id
  | .revokeAllDevices now => ((revokeAllDevices now).exec s).map .unit id
  | .invalidateEphemeralState => (invalidateEphemeralState.exec s).map .unit id

namespace Call

/-- The invitations that a call draws or names. -/
def invitationIds : Call → List PairingInvitationId
  | createInvitation _ _ id _ => [id]
  | createAutoApprovingInvitation _ _ id _ => [id]
  | claim request _ _ _ => [request.invitationId]
  | cancelInvitation id => [id]
  | _ => []

def claimIds : Call → List PairingClaimId
  | claim _ _ claimId _ => [claimId]
  | approve claimId _ _ _ => [claimId]
  | reject claimId _ => [claimId]
  | pairingStatus request _ => [request.claimId]
  | _ => []

def deviceIds : Call → List DeviceId
  | approve _ _ _ id => [id]
  | createChallenge request _ _ _ => [request.deviceId]
  | authenticate request _ _ _ => [request.deviceId]
  | revokeDevice id _ => [id]
  | _ => []

def challengeIds : Call → List ChallengeId
  | createChallenge _ _ id _ => [id]
  | authenticate request _ _ _ => [request.challengeId]
  | _ => []

def cookieTokens : Call → List String
  | authenticate _ _ _ cookieToken => [cookieToken]
  | authorizeSession cookieToken _ => [cookieToken]
  | connectSession cookieToken _ => [cookieToken]
  | _ => []

/-- A call that takes, resolves, connects and revokes nothing. -/
def isPlain : Call → Bool
  | claim .. | approve .. | reject .. | authenticate .. | connectSession .. => false
  | revokeDevice .. | revokeAllDevices .. => false
  | _ => true

end Call

/-- A call of a run, with the state it was made in. -/
structure Event where
  before : PairingState
  call : Call
  response : Response

/-- What the call draws is new, and a cookie token it presents does not collide with another. -/
def Fresh (c : Crypto) (s₀ : PairingState) (h : List Event) : Call → Prop
  | .createInvitation _ _ id _ => ∀ e ∈ h, id ∉ e.call.invitationIds
  | .createAutoApprovingInvitation _ _ id _ => ∀ e ∈ h, id ∉ e.call.invitationIds
  | .claim _ _ claimId _ => ∀ e ∈ h, claimId ∉ e.call.claimIds
  | .approve _ _ _ id => id ∉ s₀.view.map Prod.fst ∧ ∀ e ∈ h, id ∉ e.call.deviceIds
  | .createChallenge _ _ id _ => ∀ e ∈ h, id ∉ e.call.challengeIds
  | .authenticate _ _ _ cookieToken =>
    ∀ e ∈ h, ∀ t ∈ e.call.cookieTokens, secretHash c t ≠ secretHash c cookieToken
  | .authorizeSession cookieToken _ =>
    ∀ e ∈ h, ∀ t ∈ e.call.cookieTokens, secretHash c t = secretHash c cookieToken → t = cookieToken
  | .connectSession cookieToken _ =>
    ∀ e ∈ h, ∀ t ∈ e.call.cookieTokens, secretHash c t = secretHash c cookieToken → t = cookieToken
  | _ => True

/-- The histories and states that calls lead to from `s₀`. -/
inductive Run (c : Crypto) (s₀ : PairingState) : List Event → PairingState → Prop
  | start : Run c s₀ [] s₀
  | step {h : List Event} {s : PairingState} (call : Call) : Run c s₀ h s → Fresh c s₀ h call →
      Run c s₀ (⟨s, call, (step c s call).1⟩ :: h) (step c s call).2

/-! ## What the history says -/

namespace Event

/-- The call approved the device with the key. -/
def Approves (e : Event) (d : DeviceId) (key : String) : Prop :=
  ∃ record, e.response = .record (.ok record) ∧ record.id = d ∧ record.publicKeyP256Raw = key

/-- The call revokes the device. -/
def Revokes (e : Event) (d : DeviceId) : Prop :=
  match e.call with
  | .revokeDevice d' _ => d' = d
  | .revokeAllDevices _ => True
  | _ => False

/-- `claim` takes the invitation, whatever it then answers. -/
def TakesInvitation (c : Crypto) (e : Event) (i : PairingInvitationId) : Prop :=
  match e.call with
  | .claim request now _ _ => request.invitationId = i ∧
    ∃ invitation s, (takeInvitation c request now).exec e.before = (.ok invitation, s)
  | _ => False

/-- `authenticate` takes the challenge, whatever it then answers. -/
def TakesChallenge (c : Crypto) (e : Event) (i : ChallengeId) : Prop :=
  match e.call with
  | .authenticate request now _ _ => request.challengeId = i ∧
    ∃ challenge s, (takeChallenge c request now).exec e.before = (.ok challenge, s)
  | _ => False

/-- The call approved or rejected the claim. -/
def Resolves (e : Event) (i : PairingClaimId) : Prop :=
  match e.call, e.response with
  | .approve i' _ _ _, .record (.ok _) => i' = i
  | .reject i' _, .unit (.ok _) => i' = i
  | _, _ => False

/-- `connect_session` connected a socket for the cookie. -/
def Connects (e : Event) (cookieToken : String) (auth : SessionAuthorization) : Prop :=
  ∃ now, e.call = .connectSession cookieToken now ∧ e.response = .authorization (.ok auth)

/-- The call authorized the cookie. -/
def Authorizes (e : Event) (cookieToken : String) (now : DateTime) (auth : SessionAuthorization) :
    Prop :=
  (e.call = .authorizeSession cookieToken now ∨ e.call = .connectSession cookieToken now) ∧
    e.response = .authorization (.ok auth)

/-- The call granted something to the device: an approval, a challenge, a session or its use. -/
def SucceedsFor (e : Event) (d : DeviceId) : Prop :=
  (∃ record, e.response = .record (.ok record) ∧ record.id = d) ∨
  (∃ challenge, e.response = .challenge (.ok challenge) ∧ challenge.deviceId = d) ∨
  (∃ session, e.response = .authenticated (.ok session) ∧ session.response.device.id = d) ∨
  ∃ auth, e.response = .authorization (.ok auth) ∧ auth.deviceId = d

theorem TakesInvitation.mem {c : Crypto} {e : Event} {i : PairingInvitationId}
    (ht : e.TakesInvitation c i) : e.call.invitationIds = [i] ∧ e.call.isPlain = false := by
  unfold TakesInvitation at ht
  split at ht
  · rename_i hcall
    rw [hcall, ← ht.1]
    exact ⟨rfl, rfl⟩
  · exact ht.elim

theorem TakesChallenge.mem {c : Crypto} {e : Event} {i : ChallengeId}
    (ht : e.TakesChallenge c i) : e.call.challengeIds = [i] ∧ e.call.isPlain = false := by
  unfold TakesChallenge at ht
  split at ht
  · rename_i hcall
    rw [hcall, ← ht.1]
    exact ⟨rfl, rfl⟩
  · exact ht.elim

theorem Resolves.mem {e : Event} {i : PairingClaimId} (hr : e.Resolves i) :
    e.call.claimIds = [i] ∧ e.call.isPlain = false := by
  unfold Resolves at hr
  split at hr
  · rename_i hcall _
    rw [hcall, ← hr]
    exact ⟨rfl, rfl⟩
  · rename_i hcall _
    rw [hcall, ← hr]
    exact ⟨rfl, rfl⟩
  · exact hr.elim

theorem Connects.mem {e : Event} {cookieToken : String} {auth : SessionAuthorization}
    (hc : e.Connects cookieToken auth) :
    e.call.cookieTokens = [cookieToken] ∧ e.call.isPlain = false := by
  obtain ⟨now, hcall, -⟩ := hc
  rw [hcall]
  exact ⟨rfl, rfl⟩

end Event

/-- The device was approved with the key, or had it in the registry at the start, and no call has
revoked it since. -/
def ActiveKey (s₀ : PairingState) (d : DeviceId) (key : String) : List Event → Prop
  | [] => (d, key, true) ∈ s₀.view
  | e :: h => e.Approves d key ∨ (¬ e.Revokes d ∧ ActiveKey s₀ d key h)

/-- `create_challenge` issued the challenge, and no call has taken it since. -/
def Issued (c : Crypto) (h : List Event) (i : ChallengeId) (challenge : Challenge) : Prop :=
  ∃ later e earlier created issued, h = later ++ e :: earlier ∧
    e.call = .createChallenge ⟨challenge.deviceId⟩ created i challenge.bytes ∧
    e.response = .challenge (.ok issued) ∧
    challenge.expiresAt = created + seconds authChallengeTtlSecs ∧
      ∀ e ∈ later, ¬ e.TakesChallenge c i

/-- `authenticate` created the session, for a challenge that had been issued to the device and had
not expired, with a signature that is valid under the key that the device had then. -/
def SignedIn (c : Crypto) (s₀ : PairingState) (h : List Event) (cookieToken : String)
    (session : Session) (key : String) : Prop :=
  ∃ later e earlier request time response challenge, h = later ++ e :: earlier ∧
    e.call = .authenticate request time session.id cookieToken ∧
    e.response = .authenticated (.ok response) ∧ request.deviceId = session.deviceId ∧
    session.expiresAt = time + seconds authSessionTtlSecs ∧
    ActiveKey s₀ session.deviceId key earlier ∧
    Issued c earlier request.challengeId challenge ∧ Verified c request time challenge key

/-! ## What holds of a history -/

section History

variable (c : Crypto) (s₀ : PairingState) (h : List Event)

/-- Every authorized cookie came from an authentication of the device with its approved key; its
session has not expired, and the device has not been revoked since it was approved. -/
def AuthorizationsGrounded : Prop :=
  ∀ later e earlier cookieToken now auth, h = later ++ e :: earlier →
    e.Authorizes cookieToken now auth → ∃ session key,
      SignedIn c s₀ earlier cookieToken session key ∧ auth.sessionId = session.id ∧
        auth.deviceId = session.deviceId ∧ now < session.expiresAt ∧
          ActiveKey s₀ session.deviceId key earlier

/-- No call succeeds for a device once `revoke_device` has been called for it. -/
def RevokedForGood : Prop :=
  ∀ later e earlier d now, h = later ++ e :: earlier → e.call = .revokeDevice d now →
    ∀ e' ∈ later, ¬ e'.SucceedsFor d

/-- An invitation is taken once, a claim is resolved once and a challenge is taken once. -/
def ConsumedOnce : Prop :=
  ∀ later e earlier, h = later ++ e :: earlier → ∀ e' ∈ later,
    (∀ i, ¬ (e.TakesInvitation c i ∧ e'.TakesInvitation c i)) ∧
      (∀ i, ¬ (e.Resolves i ∧ e'.Resolves i)) ∧
        ∀ i, ¬ (e.TakesChallenge c i ∧ e'.TakesChallenge c i)

/-- Between two connections with one cookie, the session of the first is released. -/
def OneSocketPerCookie : Prop :=
  ∀ later e' between e earlier cookieToken auth auth',
    h = later ++ e' :: (between ++ e :: earlier) → e.Connects cookieToken auth →
      e'.Connects cookieToken auth' → ∃ r ∈ between, r.call = .releaseSession auth.sessionId

end History

end Clinch
