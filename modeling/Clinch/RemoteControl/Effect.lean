import Clinch.RemoteControl.Pairing

/-!
# What a call can do

Each call loses some of the ephemeral entries and of the revoked records, and then makes at most one
change of its own. The invariants see a call only through these lemmas.

* `Op.exec` and its inversions;
* `PairingState.view`, `Shrinks`: what the registry means, and losing entries;
* one lemma for each call: `insertInvitation_effect`, `claim_effect`, `approve_effect`, ..
-/

set_option autoImplicit false

namespace Clinch

/-! ## Running a call -/

namespace Op

variable {α β : Type}

/-- The result of the call and the state it leaves. -/
def exec (x : Op α) (s : PairingState) : Except PairingError α × PairingState := x.run s

theorem exec_pure (a : α) (s : PairingState) : (pure a : Op α).exec s = (.ok a, s) := rfl

theorem exec_throw (e : PairingError) (s : PairingState) :
    (throw e : Op α).exec s = (.error e, s) := rfl

theorem exec_modify (f : PairingState → PairingState) (s : PairingState) :
    (modify f : Op Unit).exec s = (.ok (), f s) := rfl

theorem exec_modify_bind (f : PairingState → PairingState) (g : Unit → Op β) (s : PairingState) :
    ((modify f : Op Unit) >>= g).exec s = (g ()).exec (f s) := rfl

theorem exec_get_bind (g : PairingState → Op β) (s : PairingState) :
    ((get : Op PairingState) >>= g).exec s = (g s).exec s := rfl

theorem exec_bind (x : Op α) (f : α → Op β) (s : PairingState) :
    (x >>= f).exec s = match x.exec s with
      | (.ok a, s') => (f a).exec s'
      | (.error e, s') => (.error e, s') := by
  change (match x.exec s with | (r, s') => (ExceptT.bindCont f r).run s') = _
  cases h : x.exec s with
  | mk r s' => cases r <;> rfl

/-- A call made of two either stopped in the first or went through it. -/
theorem bind_cases {x : Op α} {f : α → Op β} {s : PairingState} {r : Except PairingError β}
    {s' : PairingState} (h : (x >>= f).exec s = (r, s')) :
    (∃ e, x.exec s = (.error e, s') ∧ r = .error e) ∨
      ∃ a s₁, x.exec s = (.ok a, s₁) ∧ (f a).exec s₁ = (r, s') := by
  rw [exec_bind] at h
  cases hx : x.exec s with
  | mk r₁ s₁ =>
    rw [hx] at h
    cases r₁ with
    | error e =>
      obtain ⟨rfl, rfl⟩ := Prod.mk.inj h
      exact Or.inl ⟨e, rfl, rfl⟩
    | ok a => exact Or.inr ⟨a, s₁, rfl, h⟩

theorem ensure_cases {b : Bool} {e : PairingError} {f : Unit → Op β} {s : PairingState}
    {r : Except PairingError β} {s' : PairingState} (h : (ensure b e >>= f).exec s = (r, s')) :
    (r = .error e ∧ s' = s) ∨ (b = true ∧ (f ()).exec s = (r, s')) := by
  cases b with
  | false =>
    obtain ⟨rfl, rfl⟩ := Prod.mk.inj h
    exact Or.inl ⟨rfl, rfl⟩
  | true => exact Or.inr ⟨rfl, h⟩

theorem okOr_cases {o : Option α} {e : PairingError} {f : α → Op β} {s : PairingState}
    {r : Except PairingError β} {s' : PairingState} (h : (okOr o e >>= f).exec s = (r, s')) :
    (o = none ∧ r = .error e ∧ s' = s) ∨ ∃ a, o = some a ∧ (f a).exec s = (r, s') := by
  cases o with
  | none =>
    obtain ⟨rfl, rfl⟩ := Prod.mk.inj h
    exact Or.inl ⟨rfl, rfl, rfl⟩
  | some a => exact Or.inr ⟨a, rfl, h⟩

end Op

/-! ## What the registry means -/

/-- The id and the key of a record, and whether it is not revoked. -/
def PairedDeviceRecord.view (r : PairedDeviceRecord) : DeviceId × String × Bool :=
  (r.id, r.publicKeyP256Raw, r.revokedAt.isNone)

namespace PairingState

def view (s : PairingState) : List (DeviceId × String × Bool) :=
  s.registry.devices.map PairedDeviceRecord.view

/-- The number of sessions of the device that are connected. -/
def connections (s : PairingState) (d : DeviceId) : ℕ :=
  s.sessions.count fun session => decide (session.deviceId = d) && session.connected

/-- `s'` has lost ephemeral entries and revoked records of `s`. -/
structure Shrinks (s s' : PairingState) : Prop where
  view : s'.view.Sublist s.view
  active : ∀ {d key}, (d, key, true) ∈ s.view → (d, key, true) ∈ s'.view
  invitations : ∀ {i v}, s'.invitations.get i = some v → s.invitations.get i = some v
  claims : ∀ {i v}, s'.claims.get i = some v → s.claims.get i = some v
  challenges : ∀ {i v}, s'.challenges.get i = some v → s.challenges.get i = some v
  sessions : ∀ {i v}, s'.sessions.get i = some v → s.sessions.get i = some v
  connections : ∀ d, s'.connections d ≤ s.connections d

namespace Shrinks

variable {s s' s'' : PairingState}

theorem refl (s : PairingState) : Shrinks s s :=
  ⟨List.Sublist.refl _, fun h => h, fun h => h, fun h => h, fun h => h, fun h => h,
    fun _ => le_rfl⟩

theorem trans (h : Shrinks s s') (h' : Shrinks s' s'') : Shrinks s s'' :=
  ⟨h'.view.trans h.view, fun hd => h'.active (h.active hd),
    fun hi => h.invitations (h'.invitations hi), fun hi => h.claims (h'.claims hi),
    fun hi => h.challenges (h'.challenges hi), fun hi => h.sessions (h'.sessions hi),
    fun d => (h'.connections d).trans (h.connections d)⟩

theorem prune (s : PairingState) (now : DateTime) : Shrinks s (s.prune now) :=
  ⟨List.Sublist.refl _, fun h => h, fun h => (HashMap.get_retain_some.mp h).1,
    fun h => (HashMap.get_retain_some.mp h).1, fun h => (HashMap.get_retain_some.mp h).1,
    fun h => (HashMap.get_retain_some.mp h).1, fun _ => s.sessions.count_retain_le _⟩

theorem securityAttempts (s : PairingState) (attempts : List DateTime) :
    Shrinks s { s with securityAttempts := attempts } := ⟨List.Sublist.refl _, fun h => h,
    fun h => h, fun h => h, fun h => h, fun h => h, fun _ => le_rfl⟩

theorem retainInvitations (s : PairingState) (p : PairingInvitationId → Invitation → Bool) :
    Shrinks s { s with invitations := s.invitations.retain p } := ⟨List.Sublist.refl _, fun h => h,
    fun h => (HashMap.get_retain_some.mp h).1, fun h => h, fun h => h, fun h => h, fun _ => le_rfl⟩

theorem retainChallenges (s : PairingState) (p : ChallengeId → Challenge → Bool) :
    Shrinks s { s with challenges := s.challenges.retain p } := ⟨List.Sublist.refl _, fun h => h,
    fun h => h, fun h => h, fun h => (HashMap.get_retain_some.mp h).1, fun h => h, fun _ => le_rfl⟩

theorem retainSessions (s : PairingState) (p : List UInt8 → Session → Bool) :
    Shrinks s { s with sessions := s.sessions.retain p } := ⟨List.Sublist.refl _, fun h => h,
    fun h => h, fun h => h, fun h => h, fun h => (HashMap.get_retain_some.mp h).1,
    fun _ => s.sessions.count_retain_le _⟩

theorem ephemeral (s : PairingState) :
    Shrinks s { s with
      invitations := .empty
      claims := .empty
      challenges := .empty
      sessions := .empty
      securityAttempts := [] } :=
  ⟨List.Sublist.refl _, fun h => h, fun h => (nomatch h), fun h => (nomatch h),
    fun h => (nomatch h), fun h => (nomatch h), fun _ => Nat.zero_le _⟩

end Shrinks

theorem mem_view {s : PairingState} {r : PairedDeviceRecord} (h : r ∈ s.registry.devices) :
    r.view ∈ s.view := List.mem_map_of_mem h

theorem findDevice_some {s : PairingState} {d : DeviceId} {r : PairedDeviceRecord}
    (h : s.findDevice d = some r) : r.id = d ∧ r ∈ s.registry.devices := by
  have hd := List.find?_some h
  rw [decide_eq_true_eq] at hd
  exact ⟨hd, List.mem_of_find?_eq_some h⟩

end PairingState

open Op PairingState PairingManager

variable {c : Crypto} {s s' : PairingState} {α : Type}

/-- A call that failed has only lost entries. -/
def Failed (s : PairingState) (r : Except PairingError α) (s' : PairingState) : Prop :=
  (∃ e, r = .error e) ∧ Shrinks s s'

theorem ensureDeviceActive_cases {device : PairedDeviceRecord} {now : DateTime}
    {f : Unit → Op α} {r : Except PairingError α}
    (h : (ensureDeviceActive device now >>= f).exec s = (r, s')) :
    (∃ e, r = .error e ∧ s' = s) ∨
      (device.revokedAt = none ∧ (f ()).exec s = (r, s')) := by
  rw [ensureDeviceActive, bind_assoc] at h
  rcases ensure_cases h with ⟨rfl, rfl⟩ | ⟨hactive, h⟩
  · exact Or.inl ⟨_, rfl, rfl⟩
  rcases ensure_cases h with ⟨rfl, rfl⟩ | ⟨-, h⟩
  · exact Or.inl ⟨_, rfl, rfl⟩
  · exact Or.inr ⟨Option.isNone_iff_eq_none.mp hactive, h⟩

theorem checkRateLimit_exec {now : DateTime} {r : Except PairingError Unit}
    (h : (checkRateLimit now).exec s = (r, s')) : Shrinks s s' := by
  rw [checkRateLimit] at h
  simp only [exec_modify_bind, exec_get_bind] at h
  rcases ensure_cases h with ⟨-, rfl⟩ | ⟨-, h⟩
  · exact Shrinks.securityAttempts s _
  · obtain ⟨-, rfl⟩ := Prod.mk.inj h
    exact Shrinks.securityAttempts s _

/-! ## Pairing -/

theorem insertInvitation_effect {baseUrl : String} {now : DateTime} {autoApprove : Bool}
    {id : PairingInvitationId} {secret : String} {r : Except PairingError PairingInvitation}
    (h : (insertInvitation c baseUrl now autoApprove id secret).exec s = (r, s')) :
    ∃ s₁ invitation, Shrinks s s₁ ∧
      s' = { s₁ with invitations := s₁.invitations.insert id invitation } := by
  rw [insertInvitation] at h
  simp only [exec_modify_bind, exec_get_bind] at h
  obtain ⟨-, rfl⟩ := Prod.mk.inj h
  refine ⟨{ s.prune now with invitations := .empty }, _, (Shrinks.prune s now).trans ?_, rfl⟩
  exact ⟨List.Sublist.refl _, fun h => h, fun h => (nomatch h), fun h => h, fun h => h,
    fun h => h, fun _ => le_rfl⟩

theorem takeInvitation_effect {request : PairingClaimRequest} {now : DateTime}
    {r : Except PairingError Invitation}
    (h : (takeInvitation c request now).exec s = (r, s')) :
    Shrinks s s' ∧ ∀ invitation, r = .ok invitation →
      s.invitations.get request.invitationId = some invitation ∧
        s'.invitations.get request.invitationId = none := by
  rw [takeInvitation] at h
  rcases ensure_cases h with ⟨rfl, rfl⟩ | ⟨-, h⟩
  · exact ⟨Shrinks.refl _, fun _ h => by cases h⟩
  rcases ensure_cases h with ⟨rfl, rfl⟩ | ⟨-, h⟩
  · exact ⟨Shrinks.refl _, fun _ h => by cases h⟩
  rcases bind_cases h with ⟨e, he, rfl⟩ | ⟨_, s₁, h₁, h⟩
  · exact ⟨checkRateLimit_exec he, fun _ h => by cases h⟩
  have hsub := (checkRateLimit_exec h₁).trans (Shrinks.prune s₁ now)
  simp only [exec_modify_bind, exec_get_bind] at h
  rcases ensure_cases h with ⟨rfl, rfl⟩ | ⟨-, h⟩
  · exact ⟨hsub, fun _ h => by cases h⟩
  simp only [exec_get_bind] at h
  rcases okOr_cases h with ⟨-, rfl, rfl⟩ | ⟨invitation, hget, h⟩
  · exact ⟨hsub, fun _ h => by cases h⟩
  simp only [exec_modify_bind] at h
  obtain ⟨rfl, rfl⟩ := Prod.mk.inj h
  refine ⟨hsub.trans (Shrinks.retainInvitations _ _), ?_⟩
  rintro _ ⟨⟩
  exact ⟨hsub.invitations hget, HashMap.get_remove_self _ _⟩

/-- `claim` fails, or adds a pending claim. -/
theorem claim_effect {request : PairingClaimRequest} {now : DateTime} {claimId : PairingClaimId}
    {claimSecret : String} {r : Except PairingError PairingClaimReceipt}
    (h : (claim c request now claimId claimSecret).exec s = (r, s')) :
    Failed s r s' ∨ ∃ s₁ claim, Shrinks s s₁ ∧
      s' = { s₁ with claims := s₁.claims.insert claimId claim } := by
  rw [claim] at h
  rcases bind_cases h with ⟨e, he, rfl⟩ | ⟨invitation, s₁, h₁, h⟩
  · exact Or.inl ⟨⟨e, rfl⟩, (takeInvitation_effect he).1⟩
  have hsub := (takeInvitation_effect h₁).1
  rcases ensure_cases h with ⟨rfl, rfl⟩ | ⟨-, h⟩
  · exact Or.inl ⟨⟨_, rfl⟩, hsub⟩
  rcases ensure_cases h with ⟨rfl, rfl⟩ | ⟨-, h⟩
  · exact Or.inl ⟨⟨_, rfl⟩, hsub⟩
  simp only [exec_get_bind] at h
  rcases ensure_cases h with ⟨rfl, rfl⟩ | ⟨-, h⟩
  · exact Or.inl ⟨⟨_, rfl⟩, hsub⟩
  rcases okOr_cases h with ⟨-, rfl, rfl⟩ | ⟨publicKey, -, h⟩
  · exact Or.inl ⟨⟨_, rfl⟩, hsub⟩
  simp only [exec_modify_bind] at h
  obtain ⟨-, rfl⟩ := Prod.mk.inj h
  exact Or.inr ⟨s₁, _, hsub, rfl⟩

/-- Whatever comes of the claim, an invitation that it took is gone. -/
theorem claim_takes {request : PairingClaimRequest} {now : DateTime} (claimId : PairingClaimId)
    (claimSecret : String) {invitation : Invitation} {s₁ : PairingState}
    (h : (takeInvitation c request now).exec s = (.ok invitation, s₁)) :
    ((claim c request now claimId claimSecret).exec s).2.invitations = s₁.invitations := by
  rw [claim, exec_bind, h]
  simp only
  rcases hr : Op.exec _ s₁ with ⟨r, s'⟩
  rcases ensure_cases hr with ⟨-, rfl⟩ | ⟨-, hr⟩
  · rfl
  rcases ensure_cases hr with ⟨-, rfl⟩ | ⟨-, hr⟩
  · rfl
  simp only [exec_get_bind] at hr
  rcases ensure_cases hr with ⟨-, rfl⟩ | ⟨-, hr⟩
  · rfl
  rcases okOr_cases hr with ⟨-, -, rfl⟩ | ⟨publicKey, -, hr⟩
  · rfl
  simp only [exec_modify_bind] at hr
  obtain ⟨-, rfl⟩ := Prod.mk.inj hr
  rfl

theorem makeRoom_spec (rounds : ℕ) (devices : List PairedDeviceRecord) :
    (makeRoom rounds devices).1.Sublist devices ∧
      ∀ r ∈ devices, r.revokedAt = none → r ∈ (makeRoom rounds devices).1 := by
  induction rounds generalizing devices with
  | zero => exact ⟨List.Sublist.refl _, fun r hr _ => hr⟩
  | succ rounds ih =>
    rw [makeRoom]
    split
    · split
      · rename_i index hindex
        obtain ⟨hsub, hactive⟩ := ih (devices.eraseIdx index)
        refine ⟨hsub.trans (List.eraseIdx_sublist _ _), fun r hr hnone => ?_⟩
        obtain ⟨hlt, hrevoked, -⟩ := List.findIdx?_eq_some_iff_getElem.mp hindex
        refine hactive r (List.mem_eraseIdx_iff_getElem?.mpr ?_) hnone
        obtain ⟨i, hi⟩ := List.getElem?_of_mem hr
        refine ⟨i, fun he => ?_, hi⟩
        subst he
        rw [List.getElem?_eq_getElem hlt] at hi
        rw [Option.some.inj hi, hnone] at hrevoked
        exact nomatch hrevoked
      · exact ⟨List.Sublist.refl _, fun r hr _ => hr⟩
    · exact ⟨List.Sublist.refl _, fun r hr _ => hr⟩

theorem shrinks_makeRoom (s : PairingState) (rounds : ℕ) :
    Shrinks s { s with registry.devices := (makeRoom rounds s.registry.devices).1 } := by
  obtain ⟨hsub, hactive⟩ := makeRoom_spec rounds s.registry.devices
  refine ⟨hsub.map _, fun h => ?_, fun h => h, fun h => h, fun h => h, fun h => h,
    fun _ => le_rfl⟩
  obtain ⟨r, hr, hview⟩ := List.mem_map.mp h
  have hnone : r.revokedAt = none :=
    Option.isNone_iff_eq_none.mp (congrArg (fun v => v.2.2) hview)
  rw [← hview]
  exact List.mem_map_of_mem (hactive r hr hnone)

/-- `approve` fails, or resolves a pending claim: for a record that is not revoked, or for a new
one. -/
theorem approve_effect {claimId : PairingClaimId} {capabilities : List Capability}
    {now : DateTime} {id : DeviceId} {r : Except PairingError PairedDeviceRecord}
    (h : (approve claimId capabilities now id).exec s = (r, s')) :
    Failed s r s' ∨ ∃ record s₁ claim registry, r = .ok record ∧ Shrinks s s₁ ∧
      s.claims.get claimId = some claim ∧ claim.resolution = .pending ∧
      s' = { s₁ with
        registry := registry
        claims := s₁.claims.modify claimId fun claim =>
          { claim with resolution := .approved record.id capabilities } } ∧
      (s'.view = s₁.view ∧ (record.id, record.publicKeyP256Raw, true) ∈ s₁.view ∨
        record.id = id ∧ s'.view = s₁.view ++ [(id, record.publicKeyP256Raw, true)]) := by
  rw [approve] at h
  simp only [exec_modify_bind] at h
  have hsub := Shrinks.prune s now
  rcases ensure_cases h with ⟨rfl, rfl⟩ | ⟨-, h⟩
  · exact Or.inl ⟨⟨_, rfl⟩, hsub⟩
  simp only [exec_get_bind] at h
  rcases okOr_cases h with ⟨-, rfl, rfl⟩ | ⟨claim, hget, h⟩
  · exact Or.inl ⟨⟨_, rfl⟩, hsub⟩
  rcases ensure_cases h with ⟨rfl, rfl⟩ | ⟨hpending, h⟩
  · exact Or.inl ⟨⟨_, rfl⟩, hsub⟩
  rw [decide_eq_true_eq] at hpending
  simp only [exec_get_bind] at h
  split at h
  · rename_i device hfind
    simp only [approveAgain, setResolution, exec_modify_bind] at h
    obtain ⟨rfl, rfl⟩ := Prod.mk.inj h
    refine Or.inr ⟨_, s.prune now, claim, _, rfl, hsub, hsub.claims hget, hpending, rfl,
      Or.inl ⟨map_updateFirst (fun r _ => ?_) _, ?_⟩⟩
    · rfl
    have hkey := List.find?_some hfind
    rw [hasKey, Bool.and_eq_true] at hkey
    have hview := mem_view (s := s.prune now) (List.mem_of_find?_eq_some hfind)
    rw [PairedDeviceRecord.view, hkey.1] at hview
    exact hview
  · simp only [approveNew, exec_get_bind, exec_modify_bind] at h
    have hroom := hsub.trans (shrinks_makeRoom _ (s.prune now).registry.devices.length)
    rcases ensure_cases h with ⟨rfl, rfl⟩ | ⟨-, h⟩
    · exact Or.inl ⟨⟨_, rfl⟩, hroom⟩
    simp only [setResolution, exec_modify_bind] at h
    obtain ⟨rfl, rfl⟩ := Prod.mk.inj h
    exact Or.inr ⟨_, _, claim, _, rfl, hroom, hsub.claims hget, hpending, rfl,
      Or.inr ⟨rfl, List.map_append⟩⟩

/-- `reject` fails, or resolves a pending claim. -/
theorem reject_effect {claimId : PairingClaimId} {now : DateTime} {r : Except PairingError Unit}
    (h : (reject claimId now).exec s = (r, s')) :
    Failed s r s' ∨ ∃ s₁ claim, Shrinks s s₁ ∧
      s.claims.get claimId = some claim ∧ claim.resolution = .pending ∧
      s' = { s₁ with claims := s₁.claims.modify claimId fun claim =>
        { claim with resolution := .rejected } } := by
  rw [reject] at h
  simp only [exec_modify_bind, exec_get_bind] at h
  have hsub := Shrinks.prune s now
  rcases okOr_cases h with ⟨-, rfl, rfl⟩ | ⟨claim, hget, h⟩
  · exact Or.inl ⟨⟨_, rfl⟩, hsub⟩
  rcases ensure_cases h with ⟨rfl, rfl⟩ | ⟨hpending, h⟩
  · exact Or.inl ⟨⟨_, rfl⟩, hsub⟩
  rw [decide_eq_true_eq] at hpending
  obtain ⟨-, rfl⟩ := Prod.mk.inj h
  exact Or.inr ⟨_, claim, hsub, hsub.claims hget, hpending, rfl⟩

theorem pairingStatus_effect {request : PairingStatusRequest} {now : DateTime}
    {r : Except PairingError PairingStatus}
    (h : (pairingStatus c request now).exec s = (r, s')) : Shrinks s s' := by
  rw [pairingStatus] at h
  rcases ensure_cases h with ⟨-, rfl⟩ | ⟨-, h⟩
  · exact Shrinks.refl _
  simp only [exec_modify_bind, exec_get_bind] at h
  have hsub := Shrinks.prune s now
  have hlimit : ∀ {e : PairingError},
      ((checkRateLimit now >>= fun _ => throw e : Op PairingStatus).exec (s.prune now) =
        (r, s')) → Shrinks s s' := by
    intro e h
    rcases bind_cases h with ⟨e, he, -⟩ | ⟨_, s₁, h₁, h⟩
    · exact hsub.trans (checkRateLimit_exec he)
    · obtain ⟨-, rfl⟩ := Prod.mk.inj h
      exact hsub.trans (checkRateLimit_exec h₁)
  split at h
  · exact hlimit h
  · split at h
    · split at h <;> (obtain ⟨-, rfl⟩ := Prod.mk.inj h; exact hsub)
    · exact hlimit h

/-! ## Authentication -/

/-- `create_challenge` fails, or adds a challenge for a device that is not revoked. -/
theorem createChallenge_effect {request : AuthChallengeRequest} {now : DateTime}
    {id : ChallengeId} {bytes : List UInt8} {r : Except PairingError AuthChallenge}
    (h : (createChallenge c request now id bytes).exec s = (r, s')) :
    Failed s r s' ∨ ∃ challenge s₁ key, r = .ok challenge ∧
      challenge.deviceId = request.deviceId ∧ Shrinks s s₁ ∧
      (request.deviceId, key, true) ∈ s₁.view ∧
      s' = { s₁ with
        challenges := s₁.challenges.insert id
          ⟨request.deviceId, bytes, now + seconds authChallengeTtlSecs⟩ } := by
  rw [createChallenge] at h
  rcases bind_cases h with ⟨e, he, rfl⟩ | ⟨_, s₁, h₁, h⟩
  · exact Or.inl ⟨⟨_, rfl⟩, checkRateLimit_exec he⟩
  have hsub := (checkRateLimit_exec h₁).trans (Shrinks.prune s₁ now)
  simp only [exec_modify_bind, exec_get_bind] at h
  rcases okOr_cases h with ⟨-, rfl, rfl⟩ | ⟨device, hfind, h⟩
  · exact Or.inl ⟨⟨_, rfl⟩, hsub⟩
  rcases ensureDeviceActive_cases h with ⟨e, rfl, rfl⟩ | ⟨hactive, h⟩
  · exact Or.inl ⟨⟨_, rfl⟩, hsub⟩
  simp only [exec_get_bind] at h
  rcases ensure_cases h with ⟨rfl, rfl⟩ | ⟨-, h⟩
  · exact Or.inl ⟨⟨_, rfl⟩, hsub⟩
  simp only [exec_modify_bind] at h
  obtain ⟨rfl, rfl⟩ := Prod.mk.inj h
  obtain ⟨hid, hmem⟩ := findDevice_some hfind
  refine Or.inr ⟨_, s₁.prune now, device.publicKeyP256Raw, rfl, rfl, hsub, ?_, rfl⟩
  have hview := mem_view hmem
  rw [PairedDeviceRecord.view, hactive, hid] at hview
  exact hview

theorem takeChallenge_effect {request : Authenticate} {now : DateTime}
    {r : Except PairingError Challenge} (h : (takeChallenge c request now).exec s = (r, s')) :
    Shrinks s s' ∧ ∀ challenge, r = .ok challenge →
      s.challenges.get request.challengeId = some challenge ∧
        s'.challenges.get request.challengeId = none := by
  rw [takeChallenge] at h
  rcases ensure_cases h with ⟨rfl, rfl⟩ | ⟨-, h⟩
  · exact ⟨Shrinks.refl _, fun _ h => by cases h⟩
  rcases bind_cases h with ⟨e, he, rfl⟩ | ⟨_, s₁, h₁, h⟩
  · exact ⟨checkRateLimit_exec he, fun _ h => by cases h⟩
  have hsub := (checkRateLimit_exec h₁).trans (Shrinks.prune s₁ now)
  simp only [exec_modify_bind, exec_get_bind] at h
  rcases okOr_cases h with ⟨-, rfl, rfl⟩ | ⟨challenge, hget, h⟩
  · exact ⟨hsub, fun _ h => by cases h⟩
  simp only [exec_modify_bind] at h
  obtain ⟨rfl, rfl⟩ := Prod.mk.inj h
  refine ⟨hsub.trans (Shrinks.retainChallenges _ _), ?_⟩
  rintro _ ⟨⟩
  exact ⟨hsub.challenges hget, HashMap.get_remove_self _ _⟩

/-- What `authenticate` has checked about a challenge and a key. -/
structure Verified (c : Crypto) (request : Authenticate) (now : DateTime) (challenge : Challenge)
    (key : String) : Prop where
  device : challenge.deviceId = request.deviceId
  unexpired : now < challenge.expiresAt
  verify : ∃ publicKey signature, c.base64Decode key = some publicKey ∧
    c.base64Decode request.signature = some signature ∧
      c.verify publicKey challenge.bytes signature = true

theorem checkSignature_cases {request : Authenticate} {now : DateTime} {challenge : Challenge}
    {f : PairedDeviceRecord → Op α} {r : Except PairingError α}
    (h : (checkSignature c request now challenge >>= f).exec s = (r, s')) :
    (∃ e, r = .error e ∧ s' = s) ∨ ∃ device, device.id = request.deviceId ∧
      (request.deviceId, device.publicKeyP256Raw, true) ∈ s.view ∧
        Verified c request now challenge device.publicKeyP256Raw ∧
          (f device).exec s = (r, s') := by
  rw [checkSignature] at h
  simp only [bind_assoc, pure_bind] at h
  rcases ensure_cases h with ⟨rfl, rfl⟩ | ⟨hdevice, h⟩
  · exact Or.inl ⟨_, rfl, rfl⟩
  rcases ensure_cases h with ⟨rfl, rfl⟩ | ⟨hexpires, h⟩
  · exact Or.inl ⟨_, rfl, rfl⟩
  simp only [exec_get_bind] at h
  rcases okOr_cases h with ⟨-, rfl, rfl⟩ | ⟨device, hfind, h⟩
  · exact Or.inl ⟨_, rfl, rfl⟩
  rcases ensureDeviceActive_cases h with ⟨e, rfl, rfl⟩ | ⟨hactive, h⟩
  · exact Or.inl ⟨_, rfl, rfl⟩
  rcases okOr_cases h with ⟨-, rfl, rfl⟩ | ⟨publicKey, hkey, h⟩
  · exact Or.inl ⟨_, rfl, rfl⟩
  rcases okOr_cases h with ⟨-, rfl, rfl⟩ | ⟨signature, hsignature, h⟩
  · exact Or.inl ⟨_, rfl, rfl⟩
  rcases ensure_cases h with ⟨rfl, rfl⟩ | ⟨hverify, h⟩
  · exact Or.inl ⟨_, rfl, rfl⟩
  rw [decide_eq_true_eq] at hdevice hexpires
  obtain ⟨hid, hmem⟩ := findDevice_some hfind
  have hview := mem_view hmem
  rw [PairedDeviceRecord.view, hactive, hid] at hview
  exact Or.inr ⟨device, hid, hview,
    ⟨hdevice, hexpires, publicKey, signature, hkey, hsignature, hverify⟩, h⟩

/-- `authenticate` fails, or adds a session for a challenge that it took. -/
theorem authenticate_effect {request : Authenticate} {now : DateTime} {sessionId : AuthSessionId}
    {cookieToken : String} {r : Except PairingError AuthenticatedSession}
    (h : (authenticate c request now sessionId cookieToken).exec s = (r, s')) :
    Failed s r s' ∨ ∃ response s₁ challenge key registry, r = .ok response ∧
      response.response.device.id = request.deviceId ∧ Shrinks s s₁ ∧
      s.challenges.get request.challengeId = some challenge ∧
      (request.deviceId, key, true) ∈ s₁.view ∧ Verified c request now challenge key ∧
      s' = { s₁ with
        registry := registry
        sessions := s₁.sessions.insert (secretHash c cookieToken)
          ⟨sessionId, request.deviceId, now + seconds authSessionTtlSecs, false⟩ } ∧
      s'.view = s₁.view := by
  rw [authenticate] at h
  rcases bind_cases h with ⟨e, he, rfl⟩ | ⟨challenge, s₁, h₁, h⟩
  · exact Or.inl ⟨⟨_, rfl⟩, (takeChallenge_effect he).1⟩
  obtain ⟨hsub, htaken⟩ := takeChallenge_effect h₁
  rcases checkSignature_cases h with ⟨e, rfl, rfl⟩ | ⟨device, hid, hview, hverified, h⟩
  · exact Or.inl ⟨⟨_, rfl⟩, hsub⟩
  simp only [exec_get_bind] at h
  rcases ensure_cases h with ⟨rfl, rfl⟩ | ⟨-, h⟩
  · exact Or.inl ⟨⟨_, rfl⟩, hsub⟩
  simp only [exec_modify_bind] at h
  obtain ⟨rfl, rfl⟩ := Prod.mk.inj h
  refine Or.inr ⟨_, _, challenge, device.publicKeyP256Raw, _, rfl, hid,
    hsub.trans (Shrinks.retainSessions _ _), (htaken challenge rfl).1, hview, hverified, rfl,
    map_updateFirst (fun r _ => ?_) _⟩
  rfl

/-- Whatever comes of the authentication, a challenge that it took is gone. -/
theorem authenticate_takes {request : Authenticate} {now : DateTime} (sessionId : AuthSessionId)
    (cookieToken : String) {challenge : Challenge} {s₁ : PairingState}
    (h : (takeChallenge c request now).exec s = (.ok challenge, s₁)) :
    ((authenticate c request now sessionId cookieToken).exec s).2.challenges =
      s₁.challenges := by
  rw [authenticate, exec_bind, h]
  simp only
  rcases hr : Op.exec _ s₁ with ⟨r, s'⟩
  rcases checkSignature_cases hr with ⟨e, -, rfl⟩ | ⟨device, -, -, -, hr⟩
  · rfl
  simp only [exec_get_bind] at hr
  rcases ensure_cases hr with ⟨-, rfl⟩ | ⟨-, hr⟩
  · rfl
  simp only [exec_modify_bind] at hr
  obtain ⟨-, rfl⟩ := Prod.mk.inj hr
  rfl

/-- What `authorize_session` and `connect_session` have looked up. -/
structure Found (c : Crypto) (s : PairingState) (cookieToken : String) (now : DateTime)
    (session : Session) (id : DeviceId) : Prop where
  get : s.sessions.get (secretHash c cookieToken) = some session
  unexpired : now < session.expiresAt
  deviceId : id = session.deviceId
  active : ∃ key, (session.deviceId, key, true) ∈ s.view

theorem lookupSession_cases {cookieToken : String} {now : DateTime}
    {f : Session × PairedDeviceRecord → Op α} {r : Except PairingError α}
    (h : (lookupSession c cookieToken now >>= f).exec s = (r, s')) :
    (∃ e, r = .error e ∧ s' = s.prune now) ∨ ∃ session device,
      Found c s cookieToken now session device.id ∧
        (f (session, device)).exec (s.prune now) = (r, s') := by
  rw [lookupSession] at h
  simp only [bind_assoc, pure_bind, exec_modify_bind, exec_get_bind] at h
  rcases okOr_cases h with ⟨-, rfl, rfl⟩ | ⟨session, hget, h⟩
  · exact Or.inl ⟨_, rfl, rfl⟩
  simp only [exec_get_bind] at h
  rcases okOr_cases h with ⟨-, rfl, rfl⟩ | ⟨device, hfind, h⟩
  · exact Or.inl ⟨_, rfl, rfl⟩
  rcases ensureDeviceActive_cases h with ⟨e, rfl, rfl⟩ | ⟨hactive, h⟩
  · exact Or.inl ⟨_, rfl, rfl⟩
  obtain ⟨hget, hexpires⟩ := HashMap.get_retain_some.mp hget
  rw [decide_eq_true_eq] at hexpires
  obtain ⟨hid, hmem⟩ := findDevice_some hfind
  have hview := mem_view hmem
  rw [PairedDeviceRecord.view, hactive, hid] at hview
  exact Or.inr ⟨session, device, ⟨hget, hexpires, hid, _, hview⟩, h⟩

theorem authorizeSession_effect {cookieToken : String} {now : DateTime}
    {r : Except PairingError SessionAuthorization}
    (h : (authorizeSession c cookieToken now).exec s = (r, s')) :
    Shrinks s s' ∧ ∀ auth, r = .ok auth → ∃ session, auth.sessionId = session.id ∧
      Found c s cookieToken now session auth.deviceId := by
  rw [authorizeSession] at h
  rcases lookupSession_cases h with ⟨e, rfl, rfl⟩ | ⟨session, device, hfound, h⟩
  · exact ⟨Shrinks.prune s now, fun _ h => nomatch h⟩
  obtain ⟨rfl, rfl⟩ := Prod.mk.inj h
  refine ⟨Shrinks.prune s now, ?_⟩
  rintro _ ⟨⟩
  exact ⟨session, rfl, hfound⟩

/-- After `prune`, the open connections are the connected sessions. -/
theorem count_isActive_prune (s : PairingState) (d : DeviceId) (now : DateTime) :
    (s.prune now).sessions.count (fun session => session.isActive d now) =
      (s.prune now).connections d := by
  rw [PairingState.connections, HashMap.count_eq, HashMap.count_eq]
  refine List.countP_congr fun e he => ?_
  have hexpires : now < e.2.expiresAt := by
    have := (List.mem_filter.mp he).2
    rwa [decide_eq_true_eq] at this
  rw [Session.isActive, decide_eq_true hexpires, Bool.and_true]

/-- `connect_session` fails, or connects a session that was not, of a device with a connection
left. -/
theorem connectSession_effect {cookieToken : String} {now : DateTime}
    {r : Except PairingError SessionAuthorization}
    (h : (connectSession c cookieToken now).exec s = (r, s')) :
    Failed s r s' ∨ ∃ auth session s₁ registry, r = .ok auth ∧ Shrinks s s₁ ∧
      auth.sessionId = session.id ∧ Found c s cookieToken now session auth.deviceId ∧
      session.connected = false ∧ s₁.sessions.get (secretHash c cookieToken) = some session ∧
      s₁.connections session.deviceId < maxConnectionsPerDevice ∧
      s' = { s₁ with
        registry := registry
        sessions := s₁.sessions.modify (secretHash c cookieToken) fun session =>
          { session with connected := true } } ∧
      s'.view = s₁.view := by
  rw [connectSession] at h
  have hsub := Shrinks.prune s now
  rcases lookupSession_cases h with ⟨e, rfl, rfl⟩ | ⟨session, device, hfound, h⟩
  · exact Or.inl ⟨⟨_, rfl⟩, hsub⟩
  simp only at h
  rcases ensure_cases h with ⟨rfl, rfl⟩ | ⟨hconnected, h⟩
  · exact Or.inl ⟨⟨_, rfl⟩, hsub⟩
  simp only [exec_get_bind] at h
  rcases ensure_cases h with ⟨rfl, rfl⟩ | ⟨hcount, h⟩
  · exact Or.inl ⟨⟨_, rfl⟩, hsub⟩
  rw [decide_eq_true_eq, count_isActive_prune] at hcount
  simp only [exec_modify_bind] at h
  obtain ⟨rfl, rfl⟩ := Prod.mk.inj h
  refine Or.inr ⟨_, session, s.prune now, _, rfl, hsub, rfl, hfound, by simpa using hconnected, ?_,
    hcount, rfl, map_updateFirst (fun r _ => ?_) _⟩
  · exact HashMap.get_retain_some.mpr ⟨hfound.get, decide_eq_true hfound.unexpired⟩
  · rfl

/-! ## Revocation -/

/-- `revoke_device` does not find the device, or revokes its record and drops its sessions and
challenges. -/
theorem revokeDevice_effect {d : DeviceId} {now : DateTime} {r : Except PairingError Unit}
    (h : (revokeDevice d now).exec s = (r, s')) :
    (s' = s ∧ ∀ key active, (d, key, active) ∉ s.view) ∨ ∃ registry,
      s' = { s with
        registry := registry
        sessions := s.sessions.retain fun _ session => session.deviceId ≠ d
        challenges := s.challenges.retain fun _ challenge => challenge.deviceId ≠ d } ∧
      s'.view = updateFirst (fun v => v.1 = d) (fun v => (v.1, v.2.1, false)) s.view := by
  rw [revokeDevice] at h
  simp only [exec_get_bind] at h
  rcases okOr_cases h with ⟨hnone, -, rfl⟩ | ⟨device, -, h⟩
  · refine Or.inl ⟨rfl, fun key active hmem => ?_⟩
    obtain ⟨r, hr, hview⟩ := List.mem_map.mp hmem
    have := List.find?_eq_none.mp hnone r hr
    rw [decide_eq_true_eq] at this
    exact this (congrArg Prod.fst hview)
  · simp only [exec_modify_bind] at h
    obtain ⟨-, rfl⟩ := Prod.mk.inj h
    refine Or.inr ⟨_, rfl, updateFirst_map (fun r => ?_) (fun r => ?_) _⟩
    · rfl
    · rfl

end Clinch
