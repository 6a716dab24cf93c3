import Clinch.HashMap

/-!
# Pairing and authentication

`app/src/remote_control/pairing.rs`, with the requests of `clinch_companion_protocol`. A call locks
the state, so it is a function of the state; an error leaves the changes made before it. What the
random generator draws is an argument of the call. Base64, SHA-256, the signature check and the
text of a `Uuid` are those of the crates they come from.

* `Crypto`, `DeviceRegistry`, `PairingState`, `Op`;
* `createInvitation`, `claim`, `approve`, `reject`, `pairingStatus`;
* `createChallenge`, `authenticate`, `authorizeSession`, `connectSession`, `releaseSession`;
* `revokeDevice`, `revokeAllDevices`, `invalidateEphemeralState`.
-/

set_option autoImplicit false

namespace Clinch

/-! ## Protocol -/

/-- `DateTime<Utc>`, in nanoseconds. -/
abbrev DateTime := ℤ

/-- `Duration::seconds`. -/
def seconds (n : ℤ) : ℤ := n * 1000000000

/-- `Duration::minutes`. -/
def minutes (n : ℤ) : ℤ := seconds (n * 60)

/-- `Duration::days`. -/
def days (n : ℤ) : ℤ := seconds (n * 86400)

structure PairingInvitationId where
  uuid : ℕ
deriving DecidableEq, Repr

structure PairingClaimId where
  uuid : ℕ
deriving DecidableEq, Repr

structure DeviceId where
  uuid : ℕ
deriving DecidableEq, Repr

structure ChallengeId where
  uuid : ℕ
deriving DecidableEq, Repr

structure AuthSessionId where
  uuid : ℕ
deriving DecidableEq, Repr

inductive Capability
  | view
  | control
  | createSession
  | upload
deriving DecidableEq, Repr

inductive DevicePlatform
  | ios
  | ipados
  | macos
  | android
  | other
deriving DecidableEq, Repr

def pairingInvitationTtlSecs : ℤ := 5 * 60
def authChallengeTtlSecs : ℤ := 60
def authSessionTtlSecs : ℤ := 15 * 60
def deviceInactivityLimitDays : ℤ := 90
def maxDeviceNameBytes : ℕ := 96
def maxConnectionsPerDevice : ℕ := 3

/-- The functions of other crates. -/
structure Crypto where
  /-- `BASE64_STANDARD.decode` -/
  base64Decode : String → Option (List UInt8)
  /-- `BASE64_STANDARD.encode` -/
  base64Encode : List UInt8 → String
  /-- `Sha256::digest` -/
  sha256 : List UInt8 → List UInt8
  /-- `hex::encode` -/
  hexEncode : List UInt8 → String
  /-- `ECDSA_P256_SHA256_FIXED`: whether the key verifies the message and its signature -/
  verify : List UInt8 → List UInt8 → List UInt8 → Bool
  /-- The text of a `Uuid` -/
  uuidToString : ℕ → String

/-- `validate_text`, whether the text is accepted. -/
def validateText (value : String) (min max : ℕ) : Bool :=
  decide (min ≤ value.utf8ByteSize) && decide (value.utf8ByteSize ≤ max)

/-- `char::is_control`. -/
def isControl (c : Char) : Bool :=
  decide (c.toNat < 0x20) || (decide (0x7f ≤ c.toNat) && decide (c.toNat ≤ 0x9f))

/-- A decoded key is an uncompressed point of P-256. -/
def isP256Key (key : List UInt8) : Bool := decide (key.length = 65) && decide (key.head? = some 4)

structure DeviceSummary where
  id : DeviceId
  name : String
  platform : DevicePlatform
  capabilities : List Capability
  connected : Bool
  lastSeenAt : Option DateTime
deriving DecidableEq

structure PairingInvitation where
  id : PairingInvitationId
  pairingUrl : String
  expiresAt : DateTime
deriving DecidableEq

structure PairingClaimRequest where
  invitationId : PairingInvitationId
  secret : String
  deviceName : String
  platform : DevicePlatform
  publicKeyP256Raw : String
deriving DecidableEq

/-- `PairingClaimRequest::validate`. -/
def PairingClaimRequest.validate (c : Crypto) (r : PairingClaimRequest) : Bool :=
  validateText r.deviceName 1 maxDeviceNameBytes && validateText r.secret 32 512 &&
    (c.base64Decode r.publicKeyP256Raw).any isP256Key

structure PairingClaimReceipt where
  claimId : PairingClaimId
  claimSecret : String
  deviceName : String
  publicKeyFingerprint : String
  expiresAt : DateTime
deriving DecidableEq

structure PairingStatusRequest where
  claimId : PairingClaimId
  claimSecret : String
deriving DecidableEq

/-- `PairingStatusRequest::validate`. -/
def PairingStatusRequest.validate (r : PairingStatusRequest) : Bool :=
  validateText r.claimSecret 32 512

inductive PairingStatus
  | pending
  | approved (deviceId : DeviceId) (capabilities : List Capability)
  | rejected
  | expired
deriving DecidableEq

structure AuthChallengeRequest where
  deviceId : DeviceId
deriving DecidableEq

structure AuthChallenge where
  id : ChallengeId
  deviceId : DeviceId
  challenge : String
  expiresAt : DateTime
deriving DecidableEq

structure Authenticate where
  deviceId : DeviceId
  challengeId : ChallengeId
  signature : String
  lastSeenSequence : ℕ
deriving DecidableEq

/-- `Authenticate::validate`. -/
def Authenticate.validate (c : Crypto) (r : Authenticate) : Bool :=
  (c.base64Decode r.signature).any fun signature => decide (signature.length = 64)

structure Authenticated where
  sessionId : AuthSessionId
  device : DeviceSummary
  expiresAt : DateTime
  replayedFromSequence : Option ℕ
deriving DecidableEq

/-! ## The registry -/

def registryVersion : ℕ := 1
def maxPairedDevices : ℕ := 32
def maxPendingClaims : ℕ := 16
def maxChallenges : ℕ := 64
def maxSecurityAttemptsPerMinute : ℕ := 30
def pairingClaimTtlSecs : ℤ := 2 * 60

inductive PairingError
  | invalidRequest
  | unauthorized
  | notFound
  | expired
  | alreadyUsed
  | capacity
  | rateLimited
  | revoked
  | unsupportedRegistryVersion (version : ℕ)
  | invalidRegistry
  | stateUnavailable
deriving DecidableEq

structure PairedDeviceRecord where
  id : DeviceId
  name : String
  platform : DevicePlatform
  capabilities : List Capability
  publicKeyP256Raw : String
  pairedAt : DateTime
  lastSeenAt : Option DateTime
  revokedAt : Option DateTime
deriving DecidableEq

namespace PairedDeviceRecord

/-- `PairedDeviceRecord::validate`, whether the record is accepted. -/
def validate (c : Crypto) (r : PairedDeviceRecord) : Bool :=
  (c.base64Decode r.publicKeyP256Raw).any isP256Key && !r.name.isEmpty &&
    decide (r.name.utf8ByteSize ≤ maxDeviceNameBytes) && !r.name.toList.any isControl

/-- `PairedDeviceRecord::is_inactive`. -/
def isInactive (r : PairedDeviceRecord) (now : DateTime) : Bool :=
  decide (days deviceInactivityLimitDays < now - r.lastSeenAt.getD r.pairedAt)

/-- `PairedDeviceRecord::summary`. -/
def summary (r : PairedDeviceRecord) (connected : Bool) : DeviceSummary where
  id := r.id
  name := r.name
  platform := r.platform
  capabilities := r.capabilities
  connected := connected
  lastSeenAt := r.lastSeenAt

end PairedDeviceRecord

structure DeviceRegistry where
  version : ℕ
  routeId : String
  devices : List PairedDeviceRecord
deriving DecidableEq

namespace DeviceRegistry

/-- `devices.retain(..)` of `DeviceRegistry::validate`, with the ids and keys seen so far. -/
def retainNewest : List DeviceId → List String → List PairedDeviceRecord → List PairedDeviceRecord
  | _, _, [] => []
  | seenIds, seenPublicKeys, device :: devices =>
    if device.id ∈ seenIds then retainNewest seenIds seenPublicKeys devices
    else if device.publicKeyP256Raw ∈ seenPublicKeys then
      retainNewest (device.id :: seenIds) seenPublicKeys devices
    else
      device ::
        retainNewest (device.id :: seenIds) (device.publicKeyP256Raw :: seenPublicKeys) devices

/-- `DeviceRegistry::validate`. -/
def validate (c : Crypto) (r : DeviceRegistry) : Except PairingError DeviceRegistry :=
  if r.version ≠ registryVersion then .error (.unsupportedRegistryVersion r.version)
  else if r.routeId.utf8ByteSize ≠ 24 || !r.routeId.toList.all fun b => b.isLower || b.isDigit then
    .error .invalidRegistry
  else if maxPairedDevices < r.devices.length then .error .invalidRegistry
  else if !r.devices.all fun device => device.validate c then .error .invalidRegistry
  else
    let newestFirst := r.devices.mergeSort fun a b => decide (b.pairedAt ≤ a.pairedAt)
    let devices := retainNewest [] [] newestFirst
    .ok { r with devices := devices.mergeSort fun a b => decide (a.pairedAt ≤ b.pairedAt) }

/-- `DeviceRegistry::route_path`. -/
def routePath (r : DeviceRegistry) : String := "/clinch-remote-" ++ r.routeId

end DeviceRegistry

/-! ## The state -/

structure Invitation where
  secretHash : List UInt8
  expiresAt : DateTime
  autoApprove : Bool
deriving DecidableEq

inductive ClaimResolution
  | pending
  | approved (deviceId : DeviceId) (capabilities : List Capability)
  | rejected
deriving DecidableEq

structure Claim where
  claimSecretHash : List UInt8
  deviceName : String
  platform : DevicePlatform
  publicKeyP256Raw : String
  publicKeyFingerprint : String
  expiresAt : DateTime
  resolution : ClaimResolution
  autoApprove : Bool
deriving DecidableEq

structure Challenge where
  deviceId : DeviceId
  bytes : List UInt8
  expiresAt : DateTime
deriving DecidableEq

structure Session where
  id : AuthSessionId
  deviceId : DeviceId
  expiresAt : DateTime
  connected : Bool
deriving DecidableEq

structure AuthenticatedSession where
  response : Authenticated
  cookieToken : String
deriving DecidableEq

structure SessionAuthorization where
  sessionId : AuthSessionId
  deviceId : DeviceId
  deviceName : String
  capabilities : List Capability
deriving DecidableEq

structure PairingState where
  registry : DeviceRegistry
  invitations : HashMap PairingInvitationId Invitation
  claims : HashMap PairingClaimId Claim
  challenges : HashMap ChallengeId Challenge
  sessions : HashMap (List UInt8) Session
  securityAttempts : List DateTime

/-- A call on the locked state. -/
abbrev Op := ExceptT PairingError (StateM PairingState)

/-- `if !condition { return Err(error) }`. -/
def ensure (condition : Bool) (error : PairingError) : Op Unit :=
  if condition then pure () else throw error

/-- `option.ok_or(error)?`. -/
def okOr {α : Type} (option : Option α) (error : PairingError) : Op α :=
  match option with
  | some a => pure a
  | none => throw error

/-- `secret_hash`. -/
def secretHash (c : Crypto) (secret : String) : List UInt8 := c.sha256 secret.toUTF8.toList

/-- `secrets_match`. -/
def secretsMatch (c : Crypto) (expectedHash : List UInt8) (candidate : String) : Bool :=
  decide (expectedHash = secretHash c candidate)

/-- `ensure_device_active`. -/
def ensureDeviceActive (device : PairedDeviceRecord) (now : DateTime) : Op Unit := do
  ensure device.revokedAt.isNone .revoked
  ensure (!device.isInactive now) .expired

/-- `check_rate_limit`. -/
def checkRateLimit (now : DateTime) : Op Unit := do
  let cutoff := now - minutes 1
  modify fun s =>
    { s with securityAttempts := s.securityAttempts.dropWhile fun attempt => attempt ≤ cutoff }
  ensure ((← get).securityAttempts.length < maxSecurityAttemptsPerMinute) .rateLimited
  modify fun s => { s with securityAttempts := s.securityAttempts ++ [now] }

/-- `prune`. -/
def PairingState.prune (s : PairingState) (now : DateTime) : PairingState :=
  { s with
    invitations := s.invitations.retain fun _ invitation => decide (now < invitation.expiresAt)
    claims := s.claims.retain fun _ claim => decide (now < claim.expiresAt)
    challenges := s.challenges.retain fun _ challenge => decide (now < challenge.expiresAt)
    sessions := s.sessions.retain fun _ session => decide (now < session.expiresAt) }

/-- `registry.devices.iter().find(|device| device.id == id)`. -/
def PairingState.findDevice (s : PairingState) (id : DeviceId) : Option PairedDeviceRecord :=
  s.registry.devices.find? fun device => device.id = id

/-- `registry.devices.iter_mut().find(|device| device.id == id)`. -/
def PairingState.updateDevice (s : PairingState) (id : DeviceId)
    (f : PairedDeviceRecord → PairedDeviceRecord) : PairingState :=
  { s with registry.devices := updateFirst (fun device => device.id = id) f s.registry.devices }

/-- The filter on a device's open connections. -/
def Session.isActive (session : Session) (id : DeviceId) (now : DateTime) : Bool :=
  decide (session.deviceId = id) && session.connected && decide (now < session.expiresAt)

namespace PairingManager

variable (c : Crypto)

/-- `PairingManager::new`. -/
def new (registry : DeviceRegistry) : Except PairingError PairingState := do
  return ⟨← registry.validate c, .empty, .empty, .empty, .empty, []⟩

/-! ## Pairing -/

/-- `str::trim_end_matches('/')`. -/
def trimEndSlashes (s : String) : String :=
  String.ofList (s.toList.reverse.dropWhile (· = '/')).reverse

/-- `str::trim_start_matches('/')`. -/
def trimStartSlashes (s : String) : String := String.ofList (s.toList.dropWhile (· = '/'))

/-- `PairingManager::insert_invitation`. -/
def insertInvitation (baseUrl : String) (now : DateTime) (autoApprove : Bool)
    (id : PairingInvitationId) (secret : String) : Op PairingInvitation := do
  modify fun s => { s.prune now with invitations := .empty }
  let expiresAt := now + seconds pairingInvitationTtlSecs
  modify fun s =>
    { s with invitations := s.invitations.insert id ⟨secretHash c secret, expiresAt, autoApprove⟩ }
  let routePath := (← get).registry.routePath
  return ⟨id, trimEndSlashes baseUrl ++ "/" ++ trimStartSlashes routePath ++ "/pair#" ++
    c.uuidToString id.uuid ++ ":" ++ secret, expiresAt⟩

/-- `PairingManager::create_invitation`. -/
def createInvitation (baseUrl : String) (now : DateTime) (id : PairingInvitationId)
    (secret : String) : Op PairingInvitation := insertInvitation c baseUrl now false id secret

/-- `PairingManager::create_auto_approving_invitation`. -/
def createAutoApprovingInvitation (baseUrl : String) (now : DateTime) (id : PairingInvitationId)
    (secret : String) : Op PairingInvitation := insertInvitation c baseUrl now true id secret

/-- The part of `PairingManager::claim` that takes the invitation out of its table. -/
def takeInvitation (request : PairingClaimRequest) (now : DateTime) : Op Invitation := do
  ensure (request.validate c) .invalidRequest
  ensure (!request.deviceName.toList.any isControl) .invalidRequest
  checkRateLimit now
  modify fun s => s.prune now
  ensure ((← get).claims.len < maxPendingClaims) .capacity
  let invitation ← okOr ((← get).invitations.get request.invitationId) .notFound
  modify fun s => { s with invitations := s.invitations.remove request.invitationId }
  return invitation

/-- `PairingManager::claim`. -/
def claim (request : PairingClaimRequest) (now : DateTime) (claimId : PairingClaimId)
    (claimSecret : String) : Op PairingClaimReceipt := do
  let invitation ← takeInvitation c request now
  ensure (now < invitation.expiresAt) .expired
  ensure (secretsMatch c invitation.secretHash request.secret) .unauthorized
  ensure ((← get).registry.devices.countP (fun device => device.revokedAt.isNone)
    < maxPairedDevices) .capacity
  let publicKey ← okOr (c.base64Decode request.publicKeyP256Raw) .invalidRequest
  let publicKeyFingerprint := c.hexEncode (c.sha256 publicKey)
  let expiresAt := now + seconds pairingClaimTtlSecs
  let claim : Claim := {
    claimSecretHash := secretHash c claimSecret
    deviceName := request.deviceName
    platform := request.platform
    publicKeyP256Raw := request.publicKeyP256Raw
    publicKeyFingerprint := publicKeyFingerprint
    expiresAt := expiresAt
    resolution := .pending
    autoApprove := invitation.autoApprove }
  modify fun s => { s with claims := s.claims.insert claimId claim }
  return ⟨claimId, claimSecret, request.deviceName, publicKeyFingerprint, expiresAt⟩

/-- `PairingManager::cancel_invitation`. -/
def cancelInvitation (invitationId : PairingInvitationId) : Op Unit :=
  modify fun s => { s with invitations := s.invitations.remove invitationId }

/-- The unrevoked record of a key. -/
def hasKey (publicKeyP256Raw : String) (device : PairedDeviceRecord) : Bool :=
  device.revokedAt.isNone && decide (device.publicKeyP256Raw = publicKeyP256Raw)

/-- The loop of `PairingManager::approve` that removes revoked records while the registry is full;
whether there is room in the end. Each round removes a record, so as many rounds as records do. -/
def makeRoom : ℕ → List PairedDeviceRecord → List PairedDeviceRecord × Bool
  | 0, devices => (devices, true)
  | rounds + 1, devices =>
    if maxPairedDevices ≤ devices.length then
      match devices.findIdx? fun device => device.revokedAt.isSome with
      | some index => makeRoom rounds (devices.eraseIdx index)
      | none => (devices, false)
    else (devices, true)

/-- `state.claims.get_mut(&claim_id).expect(..).resolution = ..`. -/
def setResolution (claimId : PairingClaimId) (resolution : ClaimResolution) : Op Unit :=
  modify fun s => { s with
    claims := s.claims.modify claimId fun claim => { claim with resolution := resolution } }

/-- `PairingManager::approve` for a key that an unrevoked record, `device`, already has. -/
def approveAgain (claimId : PairingClaimId) (claim : Claim) (capabilities : List Capability)
    (now : DateTime) (device : PairedDeviceRecord) : Op PairedDeviceRecord := do
  let refresh := fun record : PairedDeviceRecord =>
    { record with
      name := claim.deviceName
      platform := claim.platform
      capabilities := capabilities
      pairedAt := now }
  modify fun s => { s with
    registry.devices := updateFirst (hasKey claim.publicKeyP256Raw) refresh s.registry.devices }
  setResolution claimId (.approved device.id capabilities)
  return refresh device

/-- `PairingManager::approve` for a new key. -/
def approveNew (claimId : PairingClaimId) (claim : Claim) (capabilities : List Capability)
    (now : DateTime) (id : DeviceId) : Op PairedDeviceRecord := do
  let room := makeRoom (← get).registry.devices.length (← get).registry.devices
  modify fun s => { s with registry.devices := room.1 }
  ensure room.2 .capacity
  let record : PairedDeviceRecord := {
    id := id
    name := claim.deviceName
    platform := claim.platform
    capabilities := capabilities
    publicKeyP256Raw := claim.publicKeyP256Raw
    pairedAt := now
    lastSeenAt := none
    revokedAt := none }
  setResolution claimId (.approved record.id capabilities)
  modify fun s => { s with registry.devices := s.registry.devices ++ [record] }
  return record

/-- `PairingManager::approve`. -/
def approve (claimId : PairingClaimId) (capabilities : List Capability) (now : DateTime)
    (id : DeviceId) : Op PairedDeviceRecord := do
  modify fun s => s.prune now
  ensure (!capabilities.isEmpty) .invalidRequest
  let claim ← okOr ((← get).claims.get claimId) .notFound
  ensure (claim.resolution = .pending) .alreadyUsed
  match (← get).registry.devices.find? (hasKey claim.publicKeyP256Raw) with
  | some device => approveAgain claimId claim capabilities now device
  | none => approveNew claimId claim capabilities now id

/-- `PairingManager::reject`. -/
def reject (claimId : PairingClaimId) (now : DateTime) : Op Unit := do
  modify fun s => s.prune now
  let claim ← okOr ((← get).claims.get claimId) .notFound
  ensure (claim.resolution = .pending) .alreadyUsed
  setResolution claimId .rejected

/-- `PairingManager::pairing_status`. -/
def pairingStatus (request : PairingStatusRequest) (now : DateTime) : Op PairingStatus := do
  ensure request.validate .invalidRequest
  modify fun s => s.prune now
  match (← get).claims.get request.claimId with
  | none => do
    checkRateLimit now
    throw .notFound
  | some claim =>
    if secretsMatch c claim.claimSecretHash request.claimSecret then
      match claim.resolution with
      | .pending => return .pending
      | .approved deviceId capabilities => return .approved deviceId capabilities
      | .rejected => return .rejected
    else do
      checkRateLimit now
      throw .unauthorized

/-! ## Authentication -/

/-- `PairingManager::create_challenge`. -/
def createChallenge (request : AuthChallengeRequest) (now : DateTime) (id : ChallengeId)
    (bytes : List UInt8) : Op AuthChallenge := do
  checkRateLimit now
  modify fun s => s.prune now
  let device ← okOr ((← get).findDevice request.deviceId) .notFound
  ensureDeviceActive device now
  ensure ((← get).challenges.len < maxChallenges) .capacity
  let expiresAt := now + seconds authChallengeTtlSecs
  modify fun s =>
    { s with challenges := s.challenges.insert id ⟨request.deviceId, bytes, expiresAt⟩ }
  return ⟨id, request.deviceId, c.base64Encode bytes, expiresAt⟩

/-- The part of `PairingManager::authenticate` that takes the challenge out of its table. -/
def takeChallenge (request : Authenticate) (now : DateTime) : Op Challenge := do
  ensure (request.validate c) .invalidRequest
  checkRateLimit now
  modify fun s => s.prune now
  let challenge ← okOr ((← get).challenges.get request.challengeId) .notFound
  modify fun s => { s with challenges := s.challenges.remove request.challengeId }
  return challenge

/-- The checks of `PairingManager::authenticate` on the challenge it took; the device. -/
def checkSignature (request : Authenticate) (now : DateTime) (challenge : Challenge) :
    Op PairedDeviceRecord := do
  ensure (challenge.deviceId = request.deviceId) .unauthorized
  ensure (now < challenge.expiresAt) .expired
  let device ← okOr ((← get).findDevice request.deviceId) .notFound
  ensureDeviceActive device now
  let publicKey ← okOr (c.base64Decode device.publicKeyP256Raw) .invalidRegistry
  let signatureBytes ← okOr (c.base64Decode request.signature) .invalidRequest
  ensure (c.verify publicKey challenge.bytes signatureBytes) .unauthorized
  return device

/-- `PairingManager::authenticate`. -/
def authenticate (request : Authenticate) (now : DateTime) (sessionId : AuthSessionId)
    (cookieToken : String) : Op AuthenticatedSession := do
  let challenge ← takeChallenge c request now
  let device ← checkSignature c request now challenge
  ensure ((← get).sessions.count (fun session => session.isActive request.deviceId now)
    < maxConnectionsPerDevice) .capacity
  modify fun s => { s with
    sessions := s.sessions.retain fun _ session =>
      !decide (session.deviceId = request.deviceId) || session.connected }
  modify fun s =>
    s.updateDevice request.deviceId fun device => { device with lastSeenAt := some now }
  let expiresAt := now + seconds authSessionTtlSecs
  modify fun s => { s with
    sessions := s.sessions.insert (secretHash c cookieToken)
      ⟨sessionId, request.deviceId, expiresAt, false⟩ }
  return ⟨⟨sessionId, { device with lastSeenAt := some now }.summary false, expiresAt, none⟩,
    cookieToken⟩

/-- The part that `authorize_session` and `connect_session` share: the session and its device. -/
def lookupSession (cookieToken : String) (now : DateTime) : Op (Session × PairedDeviceRecord) := do
  modify fun s => s.prune now
  let session ← okOr ((← get).sessions.get (secretHash c cookieToken)) .unauthorized
  let device ← okOr ((← get).findDevice session.deviceId) .notFound
  ensureDeviceActive device now
  return (session, device)

/-- `PairingManager::authorize_session`. -/
def authorizeSession (cookieToken : String) (now : DateTime) : Op SessionAuthorization := do
  let (session, device) ← lookupSession c cookieToken now
  return ⟨session.id, device.id, device.name, device.capabilities⟩

/-- `PairingManager::connect_session`. -/
def connectSession (cookieToken : String) (now : DateTime) : Op SessionAuthorization := do
  let (session, device) ← lookupSession c cookieToken now
  ensure (!session.connected) .alreadyUsed
  ensure ((← get).sessions.count (fun other => other.isActive session.deviceId now)
    < maxConnectionsPerDevice) .capacity
  modify fun s => { s with
    sessions := s.sessions.modify (secretHash c cookieToken) fun session =>
      { session with connected := true } }
  modify fun s =>
    s.updateDevice session.deviceId fun device => { device with lastSeenAt := some now }
  return ⟨session.id, device.id, device.name, device.capabilities⟩

/-- `PairingManager::release_session`. -/
def releaseSession (sessionId : AuthSessionId) : Op Unit :=
  modify fun s => { s with
    sessions := s.sessions.updateFirst (fun session => session.id = sessionId) fun session =>
      { session with connected := false } }

/-! ## Revocation -/

/-- `PairingManager::revoke_device`. -/
def revokeDevice (deviceId : DeviceId) (now : DateTime) : Op Unit := do
  let _ ← okOr ((← get).findDevice deviceId) .notFound
  modify fun s => s.updateDevice deviceId fun device => { device with revokedAt := some now }
  modify fun s => { s with
    sessions := s.sessions.retain fun _ session => session.deviceId ≠ deviceId
    challenges := s.challenges.retain fun _ challenge => challenge.deviceId ≠ deviceId }

/-- `PairingManager::revoke_all_devices`. -/
def revokeAllDevices (now : DateTime) : Op Unit :=
  modify fun s => { s with
    registry.devices := s.registry.devices.map fun device =>
      { device with revokedAt := some (device.revokedAt.getD now) }
    invitations := .empty
    claims := .empty
    challenges := .empty
    sessions := .empty
    securityAttempts := [] }

/-- `PairingManager::invalidate_ephemeral_state`. -/
def invalidateEphemeralState : Op Unit :=
  modify fun s => { s with
    invitations := .empty
    claims := .empty
    challenges := .empty
    sessions := .empty
    securityAttempts := [] }

end PairingManager

end Clinch
