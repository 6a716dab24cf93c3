import Clinch.RemoteControl.Run

/-!
# Remote Control authorization is sound

The invariant ties every table to the history: each challenge was issued to its device, each
session was signed in for its device, each device that is not revoked was approved. Losing entries
keeps it, so each call is left with its own change.

* `Inv`, `Inv.shrinks`, `Inv.event`: the invariant, under losing entries and under an event;
* `Inv.insertInvitation`, `Inv.insertSession`, ..: the changes;
* **`inv_step`**, **`pairing_sound`**.
-/

set_option autoImplicit false

namespace Clinch

open PairingState PairingManager

variable {c : Crypto} {s₀ s s' : PairingState} {h : List Event}

/-- What ties the state to the history of the run. -/
structure Inv (c : Crypto) (s₀ : PairingState) (h : List Event) (s : PairingState) : Prop where
  nodup : (s.view.map Prod.fst).Nodup
  known : ∀ {d key active}, (d, key, active) ∈ s.view →
    d ∈ s₀.view.map Prod.fst ∨ ∃ e ∈ h, d ∈ e.call.deviceIds
  active : ∀ {d key}, (d, key, true) ∈ s.view → ActiveKey s₀ d key h
  revoked : ∀ {e d now}, e ∈ h → e.call = .revokeDevice d now → ∀ {key}, (d, key, true) ∉ s.view
  challenges : ∀ {i challenge}, s.challenges.get i = some challenge →
    (∃ key, (challenge.deviceId, key, true) ∈ s.view) ∧ Issued c h i challenge
  sessions : ∀ {k session}, s.sessions.get k = some session → ∃ cookieToken key,
    k = secretHash c cookieToken ∧ (session.deviceId, key, true) ∈ s.view ∧
      SignedIn c s₀ h cookieToken session key
  takenInvitation : ∀ {e i v}, e ∈ h → e.TakesInvitation c i → s.invitations.get i ≠ some v
  takenChallenge : ∀ {e i v}, e ∈ h → e.TakesChallenge c i → s.challenges.get i ≠ some v
  resolved : ∀ {e i claim}, e ∈ h → e.Resolves i → s.claims.get i = some claim →
    claim.resolution ≠ .pending
  sockets : ∀ {later e earlier cookieToken auth session}, h = later ++ e :: earlier →
    e.Connects cookieToken auth → s.sessions.get (secretHash c cookieToken) = some session →
      session.id = auth.sessionId ∧
        ((∀ r ∈ later, r.call ≠ .releaseSession auth.sessionId) → session.connected = true)
  bounded : ∀ d, s.connections d ≤ maxConnectionsPerDevice

theorem Issued.cons {i : ChallengeId} {challenge : Challenge} (hi : Issued c h i challenge)
    {e : Event} (he : ¬ e.TakesChallenge c i) : Issued c (e :: h) i challenge := by
  obtain ⟨later, e', earlier, created, issued, rfl, hcall, hresponse, hexpires, hlater⟩ := hi
  exact ⟨e :: later, e', earlier, created, issued, rfl, hcall, hresponse, hexpires,
    List.forall_mem_cons.mpr ⟨he, hlater⟩⟩

theorem SignedIn.cons {cookieToken : String} {session : Session} {key : String}
    (hs : SignedIn c s₀ h cookieToken session key) (e : Event) :
    SignedIn c s₀ (e :: h) cookieToken session key := by
  obtain ⟨later, e', earlier, request, time, response, challenge, rfl, hrest⟩ := hs
  exact ⟨e :: later, e', earlier, request, time, response, challenge, rfl, hrest⟩

/-- A session is signed in by its id, its device and its expiry. -/
theorem SignedIn.congr {cookieToken : String} {session session' : Session} {key : String}
    (hs : SignedIn c s₀ h cookieToken session key) (hid : session'.id = session.id)
    (hdevice : session'.deviceId = session.deviceId)
    (hexpires : session'.expiresAt = session.expiresAt) :
    SignedIn c s₀ h cookieToken session' key := by
  unfold SignedIn
  rw [hid, hdevice, hexpires]
  exact hs

/-- The event says nothing that the tables of the state contradict. -/
structure Quiet (c : Crypto) (e : Event) (s : PairingState) : Prop where
  revokes : ∀ {d key}, (d, key, true) ∈ s.view → ¬ e.Revokes d
  takesInvitation : ∀ {i v}, e.TakesInvitation c i → s.invitations.get i ≠ some v
  takesChallenge : ∀ {i v}, e.TakesChallenge c i → s.challenges.get i ≠ some v
  resolves : ∀ {i claim}, e.Resolves i → s.claims.get i = some claim → claim.resolution ≠ .pending
  connects : ∀ {cookieToken auth session}, e.Connects cookieToken auth →
    s.sessions.get (secretHash c cookieToken) = some session →
      session.id = auth.sessionId ∧ session.connected = true

namespace Inv

/-- Losing entries keeps the invariant. -/
theorem shrinks (hi : Inv c s₀ h s) (hs : Shrinks s s') : Inv c s₀ h s' where
  nodup := hi.nodup.sublist (hs.view.map _)
  known hm := hi.known (hs.view.subset hm)
  active hm := hi.active (hs.view.subset hm)
  revoked he hr _ hm := hi.revoked he hr (hs.view.subset hm)
  challenges hg := by
    obtain ⟨⟨key, hk⟩, hissued⟩ := hi.challenges (hs.challenges hg)
    exact ⟨⟨key, hs.active hk⟩, hissued⟩
  sessions hg := by
    obtain ⟨token, key, htoken, hk, hsigned⟩ := hi.sessions (hs.sessions hg)
    exact ⟨token, key, htoken, hs.active hk, hsigned⟩
  takenInvitation he ht hg := hi.takenInvitation he ht (hs.invitations hg)
  takenChallenge he ht hg := hi.takenChallenge he ht (hs.challenges hg)
  resolved he hr hg := hi.resolved he hr (hs.claims hg)
  sockets hh hc hg := hi.sockets hh hc (hs.sessions hg)
  bounded d := (hs.connections d).trans (hi.bounded d)

/-- A quiet event keeps the invariant. -/
theorem event (hi : Inv c s₀ h s) {e : Event} (hq : Quiet c e s) : Inv c s₀ (e :: h) s where
  nodup := hi.nodup
  known hm := (hi.known hm).imp_right fun ⟨e', he', hd⟩ => ⟨e', List.mem_cons_of_mem _ he', hd⟩
  active hm := Or.inr ⟨hq.revokes hm, hi.active hm⟩
  revoked he hr key hm := by
    rcases List.mem_cons.mp he with rfl | he
    · refine hq.revokes hm ?_
      rw [Event.Revokes, hr]
    · exact hi.revoked he hr hm
  challenges hg := by
    obtain ⟨hactive, hissued⟩ := hi.challenges hg
    exact ⟨hactive, hissued.cons fun ht => hq.takesChallenge ht hg⟩
  sessions hg := by
    obtain ⟨token, key, htoken, hk, hsigned⟩ := hi.sessions hg
    exact ⟨token, key, htoken, hk, hsigned.cons e⟩
  takenInvitation he ht hg := by
    rcases List.mem_cons.mp he with rfl | he
    · exact hq.takesInvitation ht hg
    · exact hi.takenInvitation he ht hg
  takenChallenge he ht hg := by
    rcases List.mem_cons.mp he with rfl | he
    · exact hq.takesChallenge ht hg
    · exact hi.takenChallenge he ht hg
  resolved he hr hg := by
    rcases List.mem_cons.mp he with rfl | he
    · exact hq.resolves hr hg
    · exact hi.resolved he hr hg
  sockets {later e' earlier cookieToken auth session} hh hc hg := by
    cases later with
    | nil =>
      obtain ⟨rfl, rfl⟩ := List.cons.inj hh
      obtain ⟨hid, hconnected⟩ := hq.connects hc hg
      exact ⟨hid, fun _ => hconnected⟩
    | cons e'' later =>
      obtain ⟨rfl, hh'⟩ := List.cons.inj hh
      obtain ⟨hid, hconnected⟩ := hi.sockets hh' hc hg
      exact ⟨hid, fun hr => hconnected fun r hm => hr r (List.mem_cons_of_mem _ hm)⟩
  bounded := hi.bounded

/-- The registry counts for what it means. -/
theorem setRegistry (hi : Inv c s₀ h s) (registry : DeviceRegistry)
    (hv : ({ s with registry := registry } : PairingState).view = s.view) :
    Inv c s₀ h { s with registry := registry } := by
  obtain ⟨nodup, known, active, revoked, challenges, sessions, h1, h2, h3, h4, h5⟩ := hi
  rw [← hv] at nodup known active revoked challenges sessions
  exact ⟨nodup, known, active, revoked, challenges, sessions, h1, h2, h3, h4, h5⟩

theorem insertInvitation (hi : Inv c s₀ h s) {i : PairingInvitationId} (v : Invitation)
    (hf : ∀ e ∈ h, ¬ e.TakesInvitation c i) :
    Inv c s₀ h { s with invitations := s.invitations.insert i v } :=
  { hi with
    takenInvitation := fun {e i' v'} he ht hg => by
      rw [HashMap.get_insert] at hg
      split at hg
      · rename_i heq
        subst heq
        exact hf e he ht
      · exact hi.takenInvitation he ht hg }

theorem insertClaim (hi : Inv c s₀ h s) {i : PairingClaimId} (v : Claim)
    (hf : ∀ e ∈ h, ¬ e.Resolves i) :
    Inv c s₀ h { s with claims := s.claims.insert i v } :=
  { hi with
    resolved := fun {e i' v'} he hr hg => by
      rw [HashMap.get_insert] at hg
      split at hg
      · rename_i heq
        subst heq
        exact absurd hr (hf e he)
      · exact hi.resolved he hr hg }

theorem resolveClaim (hi : Inv c s₀ h s) (i : PairingClaimId) {resolution : ClaimResolution}
    (hr : resolution ≠ .pending) :
    Inv c s₀ h { s with
      claims := s.claims.modify i fun claim => { claim with resolution := resolution } } :=
  { hi with
    resolved := fun {e i' v'} he hres hg => by
      rcases HashMap.get_modify_some.mp hg with ⟨-, hg⟩ | ⟨-, u, -, rfl⟩
      · exact hi.resolved he hres hg
      · exact hr }

theorem insertChallenge (hi : Inv c s₀ h s) {i : ChallengeId} {v : Challenge}
    (hf : ∀ e ∈ h, ¬ e.TakesChallenge c i) (ha : ∃ key, (v.deviceId, key, true) ∈ s.view)
    (hv : Issued c h i v) : Inv c s₀ h { s with challenges := s.challenges.insert i v } :=
  { hi with
    challenges := fun {i' v'} hg => by
      rw [HashMap.get_insert] at hg
      split at hg
      · rename_i heq
        subst heq
        obtain rfl := Option.some.inj hg
        exact ⟨ha, hv⟩
      · exact hi.challenges hg
    takenChallenge := fun {e i' v'} he ht hg => by
      rw [HashMap.get_insert] at hg
      split at hg
      · rename_i heq
        subst heq
        exact hf e he ht
      · exact hi.takenChallenge he ht hg }

theorem insertSession (hi : Inv c s₀ h s) (cookieToken key : String) {v : Session}
    (hf : ∀ e ∈ h, ∀ token auth, e.Connects token auth →
      secretHash c token ≠ secretHash c cookieToken)
    (ha : (v.deviceId, key, true) ∈ s.view) (hv : SignedIn c s₀ h cookieToken v key)
    (hc : v.connected = false) :
    Inv c s₀ h { s with sessions := s.sessions.insert (secretHash c cookieToken) v } :=
  { hi with
    sessions := fun {k v'} hg => by
      rw [HashMap.get_insert] at hg
      split at hg
      · rename_i heq
        obtain rfl := Option.some.inj hg
        exact ⟨cookieToken, key, heq, ha, hv⟩
      · exact hi.sessions hg
    sockets := fun {later e earlier token auth session} hh hcon hg => by
      rw [HashMap.get_insert, if_neg (hf e (by rw [hh]; simp) token auth hcon)] at hg
      exact hi.sockets hh hcon hg
    bounded := fun d =>
      (s.sessions.count_insert_le _ (by rw [hc, Bool.and_false])).trans (hi.bounded d) }

theorem connectSession (hi : Inv c s₀ h s) {k : List UInt8} {v : Session}
    (hk : s.sessions.get k = some v) (hn : s.connections v.deviceId < maxConnectionsPerDevice) :
    Inv c s₀ h { s with
      sessions := s.sessions.modify k fun session => { session with connected := true } } :=
  { hi with
    sessions := fun {k' v'} hg => by
      rcases HashMap.get_modify_some.mp hg with ⟨-, hg⟩ | ⟨-, u, hu, rfl⟩
      · exact hi.sessions hg
      · obtain ⟨token, key, htoken, ha, hs⟩ := hi.sessions hu
        exact ⟨token, key, htoken, ha, hs.congr rfl rfl rfl⟩
    sockets := fun {later e earlier token auth session} hh hcon hg => by
      rcases HashMap.get_modify_some.mp hg with ⟨-, hg⟩ | ⟨-, u, hu, rfl⟩
      · exact hi.sockets hh hcon hg
      · exact ⟨(hi.sockets hh hcon hu).1, fun _ => rfl⟩
    bounded := fun d => by
      by_cases hd : v.deviceId = d
      · subst hd
        exact (s.sessions.count_modify_le k _).trans hn
      · refine (s.sessions.count_modify_le_self k fun u hu hp => ?_).trans (hi.bounded d)
        rw [hk] at hu
        obtain rfl := Option.some.inj hu
        rw [decide_eq_false hd, Bool.false_and] at hp
        exact nomatch hp }

/-- The event of the release is part of the history, so the sockets of the session are released. -/
theorem releaseSession (hi : Inv c s₀ h s) {id : AuthSessionId} {e : Event}
    (hq : Quiet c e s) (he : e.call = .releaseSession id) :
    Inv c s₀ (e :: h) { s with
      sessions := s.sessions.updateFirst (fun session => session.id = id) fun session =>
        { session with connected := false } } :=
  { hi.event hq with
    sessions := fun {k v} hg => by
      rcases HashMap.get_updateFirst_some hg with hg | ⟨u, hu, -, rfl⟩
      · exact (hi.event hq).sessions hg
      · obtain ⟨token, key, htoken, ha, hs⟩ := (hi.event hq).sessions hu
        exact ⟨token, key, htoken, ha, hs.congr rfl rfl rfl⟩
    sockets := fun {later e' earlier token auth session} hh hcon hg => by
      rcases HashMap.get_updateFirst_some hg with hg | ⟨u, hu, hid, rfl⟩
      · exact (hi.event hq).sockets hh hcon hg
      · obtain ⟨hauth, -⟩ := (hi.event hq).sockets hh hcon hu
        refine ⟨hauth, fun hr => absurd he ?_⟩
        rw [decide_eq_true_eq] at hid
        rw [← hid, hauth]
        refine hr e ?_
        cases later with
        | nil =>
          obtain ⟨now, hcall, -⟩ := hcon
          obtain ⟨rfl, -⟩ := List.cons.inj hh
          rw [he] at hcall
          exact nomatch hcall
        | cons e'' later => exact (List.cons.inj hh).1 ▸ List.mem_cons_self
    bounded := fun d =>
      (s.sessions.count_updateFirst_le fun v _ hp => by
        rw [Bool.and_false] at hp
        exact nomatch hp).trans (hi.bounded d) }

/-- A new device joins the registry. -/
theorem addDevice (hi : Inv c s₀ h s) {d : DeviceId} {key : String} {registry : DeviceRegistry}
    (hn : d ∉ s.view.map Prod.fst) (hk : ∃ e ∈ h, d ∈ e.call.deviceIds)
    (ha : ActiveKey s₀ d key h) (hr : ∀ e ∈ h, ∀ now, e.call ≠ .revokeDevice d now)
    (hv : ({ s with registry := registry } : PairingState).view = s.view ++ [(d, key, true)]) :
    Inv c s₀ h { s with registry := registry } :=
  { hi with
    nodup := by
      rw [hv, List.map_append, List.nodup_append']
      refine ⟨hi.nodup, List.nodup_singleton _, List.disjoint_singleton.mpr hn⟩
    known := fun {d' key' active} hm => by
      rw [hv] at hm
      rcases List.mem_append.mp hm with hm | hm
      · exact hi.known hm
      · obtain ⟨rfl, -⟩ := Prod.mk.inj (List.mem_singleton.mp hm)
        exact Or.inr hk
    active := fun {d' key'} hm => by
      rw [hv] at hm
      rcases List.mem_append.mp hm with hm | hm
      · exact hi.active hm
      · obtain ⟨rfl, hrest⟩ := Prod.mk.inj (List.mem_singleton.mp hm)
        obtain ⟨rfl, -⟩ := Prod.mk.inj hrest
        exact ha
    revoked := fun {e d' now} he hrev key' hm => by
      rw [hv] at hm
      rcases List.mem_append.mp hm with hm | hm
      · exact hi.revoked he hrev hm
      · obtain ⟨rfl, -⟩ := Prod.mk.inj (List.mem_singleton.mp hm)
        exact hr e he now hrev
    challenges := fun {i challenge} hg => by
      obtain ⟨⟨key', hactive⟩, hissued⟩ := hi.challenges hg
      exact ⟨⟨key', by rw [hv]; exact List.mem_append_left _ hactive⟩, hissued⟩
    sessions := fun {k session} hg => by
      obtain ⟨token, key', htoken, hactive, hs⟩ := hi.sessions hg
      exact ⟨token, key', htoken, by rw [hv]; exact List.mem_append_left _ hactive, hs⟩ }

/-- What a revoked registry keeps, once the sessions and challenges of the revoked devices are gone:
`hkeep` says which devices stay active. -/
theorem revoke (hi : Inv c s₀ h s) {e : Event} (registry : DeviceRegistry)
    (hids : ({ s with registry := registry } : PairingState).view.map Prod.fst =
      s.view.map Prod.fst)
    (hkeep : ∀ d key, (d, key, true) ∈ ({ s with registry := registry } : PairingState).view ↔
      (d, key, true) ∈ s.view ∧ ¬ e.Revokes d)
    (hch : ∀ i challenge, s.challenges.get i = some challenge → ¬ e.Revokes challenge.deviceId)
    (hse : ∀ k session, s.sessions.get k = some session → ¬ e.Revokes session.deviceId)
    (hcall : (∃ d now, e.call = .revokeDevice d now) ∨ ∃ now, e.call = .revokeAllDevices now) :
    Inv c s₀ (e :: h) { s with registry := registry } := by
  have hquiet : (∀ i, ¬ e.TakesInvitation c i) ∧ (∀ i, ¬ e.TakesChallenge c i) ∧
      (∀ i, ¬ e.Resolves i) ∧ ∀ token auth, ¬ e.Connects token auth := by
    unfold Event.TakesInvitation Event.TakesChallenge Event.Resolves Event.Connects
    rcases hcall with ⟨d, now, hcall⟩ | ⟨now, hcall⟩ <;> rw [hcall] <;>
      exact ⟨fun _ ht => ht, fun _ ht => ht, fun _ hr => hr, fun _ _ ⟨_, hc, _⟩ => nomatch hc⟩
  exact {
    nodup := by
      rw [hids]
      exact hi.nodup
    known := fun {d key active} hm => by
      have hd : d ∈ s.view.map Prod.fst := by
        rw [← hids]
        exact List.mem_map_of_mem hm
      obtain ⟨⟨d', key', active'⟩, hm', rfl⟩ := List.mem_map.mp hd
      exact (hi.known hm').imp_right fun ⟨e', he', hd⟩ => ⟨e', List.mem_cons_of_mem _ he', hd⟩
    active := fun {d key} hm => by
      obtain ⟨hm, hr⟩ := (hkeep d key).mp hm
      exact Or.inr ⟨hr, hi.active hm⟩
    revoked := fun {e' d now} he hrev key hm => by
      obtain ⟨hm, hr⟩ := (hkeep d key).mp hm
      rcases List.mem_cons.mp he with rfl | he
      · refine hr ?_
        rw [Event.Revokes, hrev]
      · exact hi.revoked he hrev hm
    challenges := fun {i challenge} hg => by
      obtain ⟨⟨key, hactive⟩, hissued⟩ := hi.challenges hg
      exact ⟨⟨key, (hkeep _ _).mpr ⟨hactive, hch i challenge hg⟩⟩,
        hissued.cons (hquiet.2.1 i)⟩
    sessions := fun {k session} hg => by
      obtain ⟨token, key, htoken, hactive, hs⟩ := hi.sessions hg
      exact ⟨token, key, htoken, (hkeep _ _).mpr ⟨hactive, hse k session hg⟩, hs.cons e⟩
    takenInvitation := fun {e' i v} he ht => by
      rcases List.mem_cons.mp he with rfl | he
      · exact absurd ht (hquiet.1 i)
      · exact hi.takenInvitation he ht
    takenChallenge := fun {e' i v} he ht => by
      rcases List.mem_cons.mp he with rfl | he
      · exact absurd ht (hquiet.2.1 i)
      · exact hi.takenChallenge he ht
    resolved := fun {e' i claim} he hr => by
      rcases List.mem_cons.mp he with rfl | he
      · exact absurd hr (hquiet.2.2.1 i)
      · exact hi.resolved he hr
    sockets := fun {later e' earlier token auth session} hh hcon hg => by
      cases later with
      | nil =>
        obtain ⟨rfl, -⟩ := List.cons.inj hh
        exact absurd hcon (hquiet.2.2.2 token auth)
      | cons e'' later =>
        obtain ⟨rfl, hh'⟩ := List.cons.inj hh
        obtain ⟨hid, hconnected⟩ := hi.sockets hh' hcon hg
        exact ⟨hid, fun hr => hconnected fun r hm => hr r (List.mem_cons_of_mem _ hm)⟩
    bounded := hi.bounded }

end Inv

/-! ## Steps -/

theorem quiet_of_isPlain {e : Event} (hp : e.call.isPlain = true) (s : PairingState) :
    Quiet c e s where
  revokes _ hr := by
    unfold Event.Revokes at hr
    split at hr
    · rename_i hcall
      rw [hcall] at hp
      exact nomatch hp
    · rename_i hcall
      rw [hcall] at hp
      exact nomatch hp
    · exact hr
  takesInvitation ht := Bool.noConfusion (hp.symm.trans ht.mem.2)
  takesChallenge ht := Bool.noConfusion (hp.symm.trans ht.mem.2)
  resolves hr := Bool.noConfusion (hp.symm.trans hr.mem.2)
  connects hc := Bool.noConfusion (hp.symm.trans hc.mem.2)

variable {now : DateTime}

theorem inv_insertInvitation (hi : Inv c s₀ h s) {baseUrl : String} {autoApprove : Bool}
    {id : PairingInvitationId} {secret : String} {r : Except PairingError PairingInvitation}
    (hf : ∀ e ∈ h, id ∉ e.call.invitationIds)
    (hx : (insertInvitation c baseUrl now autoApprove id secret).exec s = (r, s'))
    {e : Event} (hp : e.call.isPlain = true) : Inv c s₀ (e :: h) s' := by
  obtain ⟨s₁, v, hs, rfl⟩ := insertInvitation_effect hx
  refine ((hi.shrinks hs).event (quiet_of_isPlain hp s₁)).insertInvitation v ?_
  intro e' he' ht
  rcases List.mem_cons.mp he' with rfl | he'
  · rw [ht.mem.2] at hp
    exact nomatch hp
  · refine hf e' he' ?_
    rw [ht.mem.1]
    exact List.mem_singleton_self _

theorem inv_claim (hi : Inv c s₀ h s) {request : PairingClaimRequest} {claimId : PairingClaimId}
    {claimSecret : String} {r : Except PairingError PairingClaimReceipt}
    (hf : ∀ e ∈ h, claimId ∉ e.call.claimIds)
    (hx : (claim c request now claimId claimSecret).exec s = (r, s')) :
    Inv c s₀ (⟨s, .claim request now claimId claimSecret, .receipt r⟩ :: h) s' := by
  have hq : ∀ s₁ : PairingState, s₁.invitations = s'.invitations →
      Quiet c ⟨s, .claim request now claimId claimSecret, .receipt r⟩ s₁ := by
    intro s₁ hs₁
    refine ⟨fun _ hr => hr, ?_, fun ht => False.elim ht, fun hr => False.elim hr,
      fun ⟨_, hc, _⟩ => nomatch hc⟩
    rintro i v ⟨rfl, invitation, s₂, htake⟩
    have hinv := claim_takes claimId claimSecret htake
    rw [hx] at hinv
    rw [hs₁, hinv, ((takeInvitation_effect htake).2 invitation rfl).2]
    exact fun h => nomatch h
  rcases claim_effect hx with ⟨-, hs⟩ | ⟨s₁, v, hs, rfl⟩
  · exact (hi.shrinks hs).event (hq s' rfl)
  · refine ((hi.shrinks hs).event (hq s₁ rfl)).insertClaim v ?_
    intro e he hr
    rcases List.mem_cons.mp he with rfl | he
    · exact hr
    · refine hf e he ?_
      rw [hr.mem.1]
      exact List.mem_singleton_self _

/-- An approval or a rejection is quiet once the claim is resolved. -/
theorem quiet_resolution {claimId : PairingClaimId} {e : Event}
    (hcall : (∃ capabilities now id, e.call = .approve claimId capabilities now id) ∨
      ∃ now, e.call = .reject claimId now)
    (hr : e.Resolves claimId → ∀ claim, s.claims.get claimId = some claim →
      claim.resolution ≠ .pending) : Quiet c e s := by
  have hids : e.call.claimIds = [claimId] ∧ e.call.invitationIds = [] ∧
      e.call.challengeIds = [] ∧ e.call.cookieTokens = [] ∧ ∀ d, ¬ e.Revokes d := by
    unfold Event.Revokes
    rcases hcall with ⟨capabilities, now, id, hcall⟩ | ⟨now, hcall⟩ <;> rw [hcall] <;>
      exact ⟨rfl, rfl, rfl, rfl, fun _ hr => hr⟩
  refine ⟨fun _ => hids.2.2.2.2 _, fun ht => ?_, fun ht => ?_, fun {i claim} hres => ?_,
    fun hc => ?_⟩
  · exact nomatch ht.mem.1.symm.trans hids.2.1
  · exact nomatch ht.mem.1.symm.trans hids.2.2.1
  · obtain rfl : i = claimId := by simpa using hres.mem.1.symm.trans hids.1
    exact hr hres claim
  · exact nomatch hc.mem.1.symm.trans hids.2.2.2.1

theorem get_resolved {claimId : PairingClaimId} {resolution : ClaimResolution}
    (hr : resolution ≠ .pending) {claim : Claim} (s : PairingState)
    (hg : (s.claims.modify claimId fun claim =>
      { claim with resolution := resolution }).get claimId = some claim) :
    claim.resolution ≠ .pending := by
  rcases HashMap.get_modify_some.mp hg with ⟨hne, -⟩ | ⟨-, u, -, rfl⟩
  · exact absurd rfl hne
  · exact hr

theorem inv_reject (hi : Inv c s₀ h s) {claimId : PairingClaimId} {r : Except PairingError Unit}
    (hx : (reject claimId now).exec s = (r, s')) :
    Inv c s₀ (⟨s, .reject claimId now, .unit r⟩ :: h) s' := by
  rcases reject_effect hx with ⟨⟨e, rfl⟩, hs⟩ | ⟨s₁, claim, hs, -, -, rfl⟩
  · refine (hi.shrinks hs).event (quiet_resolution (Or.inr ⟨now, rfl⟩) ?_)
    exact fun hr => False.elim hr
  · have hne : (.rejected : ClaimResolution) ≠ .pending := fun h => nomatch h
    exact ((hi.shrinks hs).resolveClaim claimId hne).event
      (quiet_resolution (Or.inr ⟨now, rfl⟩) fun _ claim hg => get_resolved hne s₁ hg)

theorem inv_approve (hi : Inv c s₀ h s) {claimId : PairingClaimId}
    {capabilities : List Capability} {id : DeviceId}
    {r : Except PairingError PairedDeviceRecord} (hnew : id ∉ s₀.view.map Prod.fst)
    (hf : ∀ e ∈ h, id ∉ e.call.deviceIds)
    (hx : (approve claimId capabilities now id).exec s = (r, s')) :
    Inv c s₀ (⟨s, .approve claimId capabilities now id, .record r⟩ :: h) s' := by
  rcases approve_effect hx with ⟨⟨e, rfl⟩, hs⟩ |
    ⟨record, s₁, claim, registry, rfl, hs, -, -, rfl, hview⟩
  · refine (hi.shrinks hs).event (quiet_resolution (Or.inl ⟨capabilities, now, id, rfl⟩) ?_)
    exact fun hr => False.elim hr
  have hne : ClaimResolution.approved record.id capabilities ≠ .pending := fun h => nomatch h
  have hi₂ := ((hi.shrinks hs).resolveClaim claimId hne).event
    (quiet_resolution (e := ⟨s, .approve claimId capabilities now id, .record (.ok record)⟩)
      (Or.inl ⟨capabilities, now, id, rfl⟩) fun _ claim hg => get_resolved hne s₁ hg)
  rcases hview with ⟨hview, -⟩ | ⟨hid, hview⟩
  · exact hi₂.setRegistry registry hview
  · refine hi₂.addDevice ?_ ⟨_, List.mem_cons_self, ?_⟩ (Or.inl ⟨record, rfl, hid, rfl⟩) ?_ hview
    · intro hm
      obtain ⟨⟨d, key, active⟩, hd, rfl⟩ := List.mem_map.mp hm
      rcases (hi.shrinks hs).known hd with hd | ⟨e, he, hd⟩
      · exact hnew hd
      · exact hf e he hd
    · exact List.mem_singleton_self _
    · intro e he time hrev
      rcases List.mem_cons.mp he with rfl | he
      · exact nomatch hrev
      · refine hf e he ?_
        rw [hrev]
        exact List.mem_singleton_self _

theorem inv_createChallenge (hi : Inv c s₀ h s) {request : AuthChallengeRequest}
    {id : ChallengeId} {bytes : List UInt8} {r : Except PairingError AuthChallenge}
    (hf : ∀ e ∈ h, id ∉ e.call.challengeIds)
    (hx : (createChallenge c request now id bytes).exec s = (r, s')) :
    Inv c s₀ (⟨s, .createChallenge request now id bytes, .challenge r⟩ :: h) s' := by
  rcases createChallenge_effect hx with ⟨-, hs⟩ |
    ⟨challenge, s₁, key, rfl, hdevice, hs, hactive, rfl⟩
  · exact (hi.shrinks hs).event (quiet_of_isPlain rfl s')
  · refine ((hi.shrinks hs).event (quiet_of_isPlain rfl s₁)).insertChallenge ?_
      ⟨key, hactive⟩ ⟨[], _, h, now, challenge, rfl, rfl, rfl, rfl, fun _ hm => nomatch hm⟩
    intro e he ht
    rcases List.mem_cons.mp he with rfl | he
    · exact ht
    · refine hf e he ?_
      rw [ht.mem.1]
      exact List.mem_singleton_self _

theorem inv_authenticate (hi : Inv c s₀ h s) {request : Authenticate} {sessionId : AuthSessionId}
    {cookieToken : String} {r : Except PairingError AuthenticatedSession}
    (hf : ∀ e ∈ h, ∀ t ∈ e.call.cookieTokens, secretHash c t ≠ secretHash c cookieToken)
    (hx : (authenticate c request now sessionId cookieToken).exec s = (r, s')) :
    Inv c s₀ (⟨s, .authenticate request now sessionId cookieToken, .authenticated r⟩ :: h) s' := by
  have hq : ∀ s₁ : PairingState, s₁.challenges = s'.challenges →
      Quiet c ⟨s, .authenticate request now sessionId cookieToken, .authenticated r⟩ s₁ := by
    intro s₁ hs₁
    refine ⟨fun _ hr => hr, fun ht => False.elim ht, ?_, fun hr => False.elim hr,
      fun ⟨_, hc, _⟩ => nomatch hc⟩
    rintro i v ⟨rfl, challenge, s₂, htake⟩
    have hch := authenticate_takes sessionId cookieToken htake
    rw [hx] at hch
    rw [hs₁, hch, ((takeChallenge_effect htake).2 challenge rfl).2]
    exact fun h => nomatch h
  rcases authenticate_effect hx with ⟨-, hs⟩ |
    ⟨response, s₁, challenge, key, registry, rfl, -, hs, hch, hactive, hverified, rfl, hview⟩
  · exact (hi.shrinks hs).event (hq s' rfl)
  have hi₁ := (hi.shrinks hs).event (hq s₁ rfl)
  refine (hi₁.insertSession cookieToken key
    (v := ⟨sessionId, request.deviceId, now + seconds authSessionTtlSecs, false⟩) ?_ hactive
    ?_ rfl).setRegistry registry hview
  · intro e he token auth hcon
    rcases List.mem_cons.mp he with rfl | he
    · obtain ⟨_, hcall, -⟩ := hcon
      exact nomatch hcall
    · refine hf e he token ?_
      rw [hcon.mem.1]
      exact List.mem_singleton_self _
  · exact ⟨[], _, h, request, now, response, challenge, rfl, rfl, rfl, rfl, rfl,
      (hi.shrinks hs).active hactive, (hi.challenges hch).2, hverified⟩

theorem inv_connectSession (hi : Inv c s₀ h s) {cookieToken : String}
    {r : Except PairingError SessionAuthorization}
    (hx : (connectSession c cookieToken now).exec s = (r, s')) :
    Inv c s₀ (⟨s, .connectSession cookieToken now, .authorization r⟩ :: h) s' := by
  rcases connectSession_effect hx with ⟨⟨e, rfl⟩, hs⟩ |
    ⟨auth, session, s₁, registry, rfl, hs, hid, -, -, hget, hn, rfl, hview⟩
  · refine (hi.shrinks hs).event ⟨fun _ hr => hr, fun ht => False.elim ht,
      fun ht => False.elim ht, fun hr => False.elim hr, fun ⟨_, _, hr⟩ => nomatch hr⟩
  · refine ((((hi.shrinks hs).connectSession hget hn).setRegistry registry hview)).event
      ⟨fun _ hr => hr, fun ht => False.elim ht, fun ht => False.elim ht,
        fun hr => False.elim hr, ?_⟩
    rintro token auth' session' ⟨_, hcall, hresponse⟩ hget'
    cases hcall
    cases hresponse
    rcases HashMap.get_modify_some.mp hget' with ⟨hne, -⟩ | ⟨-, u, hu, rfl⟩
    · exact absurd rfl hne
    · rw [hget] at hu
      obtain rfl := Option.some.inj hu
      exact ⟨hid.symm, rfl⟩

theorem mem_revoked {view : List (DeviceId × String × Bool)} (hn : (view.map Prod.fst).Nodup)
    {d d' : DeviceId} {key : String} :
    (d', key, true) ∈ updateFirst (fun v => v.1 = d) (fun v => (v.1, v.2.1, false)) view ↔
      (d', key, true) ∈ view ∧ ¬ d = d' := by
  induction view with
  | nil => exact ⟨fun h => (by cases h), fun h => (by cases h.1)⟩
  | cons v view ih =>
    rw [List.map_cons, List.nodup_cons] at hn
    rw [updateFirst]
    split
    · rename_i hv
      rw [decide_eq_true_eq] at hv
      subst hv
      rw [List.mem_cons, List.mem_cons]
      constructor
      · rintro (heq | hm)
        · cases (Prod.mk.inj (Prod.mk.inj heq).2).2
        · exact ⟨Or.inr hm, fun hd => hn.1 (hd ▸ List.mem_map_of_mem (f := Prod.fst) hm)⟩
      · rintro ⟨rfl | hm, hd⟩
        · exact absurd rfl hd
        · exact Or.inr hm
    · rename_i hv
      rw [decide_eq_true_eq] at hv
      rw [List.mem_cons, List.mem_cons, ih hn.2]
      constructor
      · rintro (rfl | ⟨hm, hd⟩)
        · exact ⟨Or.inl rfl, fun hd => hv hd.symm⟩
        · exact ⟨Or.inr hm, hd⟩
      · rintro ⟨rfl | hm, hd⟩
        · exact Or.inl rfl
        · exact Or.inr ⟨hm, hd⟩

theorem inv_revokeDevice (hi : Inv c s₀ h s) {d : DeviceId} {r : Except PairingError Unit}
    (hx : (revokeDevice d now).exec s = (r, s')) :
    Inv c s₀ (⟨s, .revokeDevice d now, .unit r⟩ :: h) s' := by
  rcases revokeDevice_effect hx with ⟨rfl, hnone⟩ | ⟨registry, rfl, hview⟩
  · refine hi.event ⟨fun {d' key} hm hr => ?_, fun ht => False.elim ht, fun ht => False.elim ht,
      fun hr => False.elim hr, fun ⟨_, hc, _⟩ => nomatch hc⟩
    obtain rfl : d = d' := hr
    exact hnone _ _ hm
  have hi₁ := (hi.shrinks (Shrinks.retainSessions s fun _ session => session.deviceId ≠ d)).shrinks
    (Shrinks.retainChallenges _ fun _ challenge => challenge.deviceId ≠ d)
  have hids := map_updateFirst (p := fun v : DeviceId × String × Bool => decide (v.1 = d))
    (f := fun v => (v.1, v.2.1, false)) (g := Prod.fst) (fun _ _ => rfl) s.view
  refine hi₁.revoke registry ?_ ?_ ?_ ?_ (Or.inl ⟨d, now, rfl⟩)
  · exact (congrArg (List.map Prod.fst) hview).trans hids
  · intro d' key
    change _ ∈ PairingState.view _ ↔ (d', key, true) ∈ s.view ∧ ¬ d = d'
    rw [show (PairingState.view _) = _ from hview]
    exact mem_revoked hi.nodup
  · intro i challenge hg (hr : d = challenge.deviceId)
    exact of_decide_eq_true (HashMap.get_retain_some.mp hg).2 hr.symm
  · intro k session hg (hr : d = session.deviceId)
    exact of_decide_eq_true (HashMap.get_retain_some.mp hg).2 hr.symm

theorem inv_revokeAllDevices (hi : Inv c s₀ h s) {r : Except PairingError Unit}
    (hx : (revokeAllDevices now).exec s = (r, s')) :
    Inv c s₀ (⟨s, .revokeAllDevices now, .unit r⟩ :: h) s' := by
  obtain ⟨-, rfl⟩ := Prod.mk.inj hx
  refine (hi.shrinks (Shrinks.ephemeral s)).revoke _ ?_ ?_ (fun _ _ hg => by cases hg)
    (fun _ _ hg => by cases hg) (Or.inr ⟨now, rfl⟩)
  · simp [PairingState.view, PairedDeviceRecord.view, Function.comp_def]
  · intro d key
    refine ⟨fun hm => ?_, fun hm => absurd trivial hm.2⟩
    obtain ⟨r, hr, hview⟩ := List.mem_map.mp hm
    obtain ⟨r', -, rfl⟩ := List.mem_map.mp hr
    cases (Prod.mk.inj (Prod.mk.inj hview).2).2

/-- **Every call keeps the invariant.** -/
theorem inv_step (hi : Inv c s₀ h s) {call : Call} (hf : Fresh c s₀ h call) :
    Inv c s₀ (⟨s, call, (step c s call).1⟩ :: h) (step c s call).2 := by
  cases call with
  | createInvitation baseUrl now id secret =>
    have hx : (createInvitation c baseUrl now id secret).exec s = (_, _) := rfl
    exact inv_insertInvitation hi hf hx rfl
  | createAutoApprovingInvitation baseUrl now id secret =>
    have hx : (createAutoApprovingInvitation c baseUrl now id secret).exec s = (_, _) := rfl
    exact inv_insertInvitation hi hf hx rfl
  | claim request now claimId claimSecret => exact inv_claim hi hf rfl
  | cancelInvitation id =>
    exact (hi.shrinks (Shrinks.retainInvitations s _)).event (quiet_of_isPlain rfl _)
  | approve claimId capabilities now id => exact inv_approve hi hf.1 hf.2 rfl
  | reject claimId now => exact inv_reject hi rfl
  | pairingStatus request now =>
    exact (hi.shrinks (pairingStatus_effect rfl)).event (quiet_of_isPlain rfl _)
  | createChallenge request now id bytes => exact inv_createChallenge hi hf rfl
  | authenticate request now sessionId cookieToken => exact inv_authenticate hi hf rfl
  | authorizeSession cookieToken now =>
    exact (hi.shrinks (authorizeSession_effect rfl).1).event (quiet_of_isPlain rfl _)
  | connectSession cookieToken now => exact inv_connectSession hi rfl
  | releaseSession id => exact hi.releaseSession (quiet_of_isPlain rfl _) rfl
  | revokeDevice d now => exact inv_revokeDevice hi rfl
  | revokeAllDevices now => exact inv_revokeAllDevices hi rfl
  | invalidateEphemeralState =>
    exact (hi.shrinks (Shrinks.ephemeral s)).event (quiet_of_isPlain rfl _)

/-! ## Runs -/

theorem retainNewest_nodup (ids : List DeviceId) (keys : List String)
    (devices : List PairedDeviceRecord) :
    ((DeviceRegistry.retainNewest ids keys devices).map PairedDeviceRecord.id).Nodup ∧
      ∀ r ∈ DeviceRegistry.retainNewest ids keys devices, r.id ∉ ids := by
  induction devices generalizing ids keys with
  | nil => exact ⟨List.nodup_nil, fun _ hr => nomatch hr⟩
  | cons device devices ih =>
    rw [DeviceRegistry.retainNewest]
    split
    · exact ih ids keys
    · rename_i hid
      split
      · obtain ⟨hn, hd⟩ := ih (device.id :: ids) keys
        exact ⟨hn, fun r hr hm => hd r hr (List.mem_cons_of_mem _ hm)⟩
      · obtain ⟨hn, hd⟩ := ih (device.id :: ids) (device.publicKeyP256Raw :: keys)
        rw [List.map_cons, List.nodup_cons, List.forall_mem_cons]
        refine ⟨⟨fun hm => ?_, hn⟩, hid, fun r hr hm => hd r hr (List.mem_cons_of_mem _ hm)⟩
        obtain ⟨r, hr, heq⟩ := List.mem_map.mp hm
        exact hd r hr (heq ▸ List.mem_cons_self)

theorem inv_new {registry : DeviceRegistry} (hnew : new c registry = .ok s₀) :
    Inv c s₀ [] s₀ := by
  rw [new] at hnew
  obtain ⟨registry', hvalid, hs⟩ : ∃ registry', registry.validate c = .ok registry' ∧
      (⟨registry', .empty, .empty, .empty, .empty, []⟩ : PairingState) = s₀ := by
    cases hv : registry.validate c with
    | error e =>
      rw [hv] at hnew
      exact nomatch hnew
    | ok registry' =>
      rw [hv] at hnew
      exact ⟨registry', rfl, Except.ok.inj hnew⟩
  subst hs
  have hnodup : (registry'.devices.map PairedDeviceRecord.id).Nodup := by
    unfold DeviceRegistry.validate at hvalid
    split at hvalid
    · exact nomatch hvalid
    split at hvalid
    · exact nomatch hvalid
    split at hvalid
    · exact nomatch hvalid
    split at hvalid
    · exact nomatch hvalid
    obtain rfl := Except.ok.inj hvalid
    exact (((List.mergeSort_perm _ _).map _).nodup_iff).mpr (retainNewest_nodup _ _ _).1
  refine ⟨?_, fun hm => Or.inl (List.mem_map_of_mem hm), fun hm => hm, fun he => (nomatch he),
    fun hg => (nomatch hg), fun hg => (nomatch hg), fun he => (nomatch he), fun he => (nomatch he),
    fun he => (nomatch he), fun hh => ?_, fun _ => Nat.zero_le _⟩
  · rw [PairingState.view, List.map_map]
    exact hnodup
  · exact absurd hh.symm (by simp)

/-- **The invariant holds in every run.** -/
theorem run_inv {registry : DeviceRegistry} (hnew : new c registry = .ok s₀)
    (hr : Run c s₀ h s) : Inv c s₀ h s := by
  induction hr with
  | start => exact inv_new hnew
  | step call _ hf ih => exact inv_step ih hf

/-- A session that was found was signed in with the cookie it was found by. -/
theorem grounded_of_found (hi : Inv c s₀ h s) {cookieToken : String} {session : Session}
    {d : DeviceId} (hfound : Found c s cookieToken now session d)
    (hf : ∀ e ∈ h, ∀ t ∈ e.call.cookieTokens, secretHash c t = secretHash c cookieToken →
      t = cookieToken) :
    ∃ key, SignedIn c s₀ h cookieToken session key ∧ ActiveKey s₀ session.deviceId key h := by
  obtain ⟨token, key, htoken, hactive, hs⟩ := hi.sessions hfound.get
  have hmem := hs
  obtain ⟨later, e, earlier, request, time, response, challenge, hh, hcall, -⟩ := hmem
  have heq : token = cookieToken := by
    refine hf e (by rw [hh]; simp) token ?_ htoken.symm
    rw [hcall]
    exact List.mem_singleton_self _
  subst heq
  exact ⟨key, hs, hi.active hactive⟩

theorem authorizes_grounded (hi : Inv c s₀ h s) {call : Call} (hf : Fresh c s₀ h call)
    {cookieToken : String} {auth : SessionAuthorization}
    (ha : Event.Authorizes ⟨s, call, (step c s call).1⟩ cookieToken now auth) :
    ∃ session key, SignedIn c s₀ h cookieToken session key ∧ auth.sessionId = session.id ∧
      auth.deviceId = session.deviceId ∧ now < session.expiresAt ∧
        ActiveKey s₀ session.deviceId key h := by
  obtain ⟨hcall | hcall, hresponse⟩ := ha
  · cases hcall
    obtain ⟨session, hid, hfound⟩ := (authorizeSession_effect rfl).2 auth
      (Response.authorization.inj hresponse)
    obtain ⟨key, hs, hactive⟩ := grounded_of_found hi hfound hf
    exact ⟨session, key, hs, hid, hfound.deviceId, hfound.unexpired, hactive⟩
  · cases hcall
    have hok := Response.authorization.inj hresponse
    have hx : (PairingManager.connectSession c cookieToken now).exec s = (_, _) := rfl
    rcases connectSession_effect hx with ⟨⟨e, he⟩, -⟩ |
      ⟨auth', session, -, -, hauth, -, hid, hfound, -⟩
    · exact nomatch he.symm.trans hok
    · obtain rfl := Except.ok.inj (hauth.symm.trans hok)
      obtain ⟨key, hs, hactive⟩ := grounded_of_found hi hfound hf
      exact ⟨session, key, hs, hid, hfound.deviceId, hfound.unexpired, hactive⟩

theorem connects_before {call : Call} {cookieToken : String} {auth : SessionAuthorization}
    (hc : Event.Connects ⟨s, call, (step c s call).1⟩ cookieToken auth) : ∃ session,
      s.sessions.get (secretHash c cookieToken) = some session ∧ session.connected = false := by
  obtain ⟨now, hcall, hresponse⟩ := hc
  cases hcall
  have hok := Response.authorization.inj hresponse
  have hx : (PairingManager.connectSession c cookieToken now).exec s = (_, _) := rfl
  rcases connectSession_effect hx with ⟨⟨e, he⟩, -⟩ |
    ⟨auth', session, -, -, -, -, -, hfound, hconnected, -⟩
  · exact nomatch he.symm.trans hok
  · exact ⟨session, hfound.get, hconnected⟩

/-- A call that succeeds for a device finds it not revoked, or has just drawn its id. -/
theorem succeedsFor_active {call : Call} (hf : Fresh c s₀ h call)
    {d : DeviceId} (hs : Event.SucceedsFor ⟨s, call, (step c s call).1⟩ d) :
    (∃ key, (d, key, true) ∈ s.view) ∨ ∀ e ∈ h, d ∉ e.call.deviceIds := by
  rcases hs with ⟨record, hr, rfl⟩ | ⟨challenge, hr, rfl⟩ | ⟨session, hr, rfl⟩ | ⟨auth, hr, rfl⟩
  · cases call with
    | approve claimId capabilities now id =>
      have hx : (approve claimId capabilities now id).exec s = (_, _) := rfl
      rcases approve_effect hx with ⟨⟨e, he⟩, -⟩ |
        ⟨record', s₁, -, -, hrecord, hs₁, -, -, -, hview⟩
      · exact nomatch he.symm.trans (Response.record.inj hr)
      · obtain rfl := Except.ok.inj (hrecord.symm.trans (Response.record.inj hr))
        rcases hview with ⟨-, hactive⟩ | ⟨rfl, -⟩
        · exact Or.inl ⟨_, hs₁.view.subset hactive⟩
        · exact Or.inr hf.2
    | _ => exact Response.noConfusion hr
  · cases call with
    | createChallenge request now id bytes =>
      have hx : (createChallenge c request now id bytes).exec s = (_, _) := rfl
      rcases createChallenge_effect hx with ⟨⟨e, he⟩, -⟩ |
        ⟨challenge', s₁, key, hchallenge, hdevice, hs₁, hactive, -⟩
      · exact nomatch he.symm.trans (Response.challenge.inj hr)
      · obtain rfl := Except.ok.inj (hchallenge.symm.trans (Response.challenge.inj hr))
        rw [hdevice]
        exact Or.inl ⟨key, hs₁.view.subset hactive⟩
    | _ => exact Response.noConfusion hr
  · cases call with
    | authenticate request now sessionId cookieToken =>
      have hx : (authenticate c request now sessionId cookieToken).exec s = (_, _) := rfl
      rcases authenticate_effect hx with ⟨⟨e, he⟩, -⟩ |
        ⟨response, s₁, -, key, -, hsession, hdevice, hs₁, -, hactive, -⟩
      · exact nomatch he.symm.trans (Response.authenticated.inj hr)
      · obtain rfl := Except.ok.inj (hsession.symm.trans (Response.authenticated.inj hr))
        rw [hdevice]
        exact Or.inl ⟨key, hs₁.view.subset hactive⟩
    | _ => exact Response.noConfusion hr
  · cases call with
    | authorizeSession cookieToken now =>
      obtain ⟨session, -, hfound⟩ :=
        (authorizeSession_effect rfl).2 auth (Response.authorization.inj hr)
      rw [hfound.deviceId]
      exact Or.inl hfound.active
    | connectSession cookieToken now =>
      have hx : (PairingManager.connectSession c cookieToken now).exec s = (_, _) := rfl
      rcases connectSession_effect hx with ⟨⟨e, he⟩, -⟩ |
        ⟨auth', session, -, -, hauth, -, -, hfound, -⟩
      · exact nomatch he.symm.trans (Response.authorization.inj hr)
      · obtain rfl := Except.ok.inj (hauth.symm.trans (Response.authorization.inj hr))
        rw [hfound.deviceId]
        exact Or.inl hfound.active
    | _ => exact Response.noConfusion hr

theorem takesInvitation_before {e : Event} {i : PairingInvitationId}
    (ht : e.TakesInvitation c i) : ∃ v, e.before.invitations.get i = some v := by
  unfold Event.TakesInvitation at ht
  split at ht
  · obtain ⟨rfl, invitation, s₁, htake⟩ := ht
    exact ⟨invitation, ((takeInvitation_effect htake).2 invitation rfl).1⟩
  · exact ht.elim

theorem takesChallenge_before {e : Event} {i : ChallengeId} (ht : e.TakesChallenge c i) :
    ∃ v, e.before.challenges.get i = some v := by
  unfold Event.TakesChallenge at ht
  split at ht
  · obtain ⟨rfl, challenge, s₁, htake⟩ := ht
    exact ⟨challenge, ((takeChallenge_effect htake).2 challenge rfl).1⟩
  · exact ht.elim

theorem resolves_before {call : Call} {i : PairingClaimId}
    (hr : Event.Resolves ⟨s, call, (step c s call).1⟩ i) :
    ∃ claim, s.claims.get i = some claim ∧ claim.resolution = .pending := by
  cases call with
  | approve claimId capabilities now id =>
    obtain rfl : i = claimId := by simpa [Call.claimIds] using hr.mem.1.symm
    rcases hx : (approve i capabilities now id).exec s with ⟨result, s'⟩
    change Event.Resolves ⟨s, _, .record ((approve i capabilities now id).exec s).1⟩ i at hr
    rw [hx] at hr
    rcases approve_effect hx with ⟨⟨e, rfl⟩, -⟩ | ⟨record, s₁, claim, -, -, -, hget, hp, -⟩
    · exact hr.elim
    · exact ⟨claim, hget, hp⟩
  | reject claimId now =>
    obtain rfl : i = claimId := by simpa [Call.claimIds] using hr.mem.1.symm
    rcases hx : (reject i now).exec s with ⟨result, s'⟩
    change Event.Resolves ⟨s, _, .unit ((reject i now).exec s).1⟩ i at hr
    rw [hx] at hr
    rcases reject_effect hx with ⟨⟨e, rfl⟩, -⟩ | ⟨s₁, claim, -, hget, hp, -⟩
    · exact hr.elim
    · exact ⟨claim, hget, hp⟩
  | _ => exact hr.elim

/-- **Remote Control authorization is sound in every run**: what is authorized was signed in by a
device that is still approved, what is revoked stays revoked, what is consumed is consumed once, a
cookie has one socket at a time, and a device has a bounded number of them. -/
theorem pairing_sound {registry : DeviceRegistry} (hnew : new c registry = .ok s₀)
    (hr : Run c s₀ h s) :
    AuthorizationsGrounded c s₀ h ∧ RevokedForGood h ∧ ConsumedOnce c h ∧ OneSocketPerCookie h ∧
      ∀ d, s.connections d ≤ maxConnectionsPerDevice := by
  refine ⟨?_, ?_, ?_, ?_, (run_inv hnew hr).bounded⟩
  · induction hr with
    | start => exact fun later e earlier _ _ _ hh => absurd hh.symm (by simp)
    | @step h s call hr hf ih =>
      intro later e earlier cookieToken now auth hh ha
      cases later with
      | nil =>
        obtain ⟨rfl, rfl⟩ := List.cons.inj hh
        exact authorizes_grounded (run_inv hnew hr) hf ha
      | cons e' later =>
        obtain ⟨rfl, hh'⟩ := List.cons.inj hh
        exact ih later e earlier cookieToken now auth hh' ha
  · induction hr with
    | start => exact fun later e earlier _ _ hh => absurd hh.symm (by simp)
    | @step h s call hr hf ih =>
      intro later e earlier d now hh hrev e' he' hs
      cases later with
      | nil => exact nomatch he'
      | cons e'' later =>
        obtain ⟨rfl, hh'⟩ := List.cons.inj hh
        rcases List.mem_cons.mp he' with rfl | he'
        · have he : e ∈ h := hh' ▸ List.mem_append_right later List.mem_cons_self
          rcases succeedsFor_active hf hs with ⟨key, hactive⟩ | hnew
          · exact (run_inv hnew hr).revoked he hrev hactive
          · refine hnew e he ?_
            rw [hrev]
            exact List.mem_singleton_self _
        · exact ih later e earlier d now hh' hrev e' he' hs
  · induction hr with
    | start => exact fun later e earlier hh => absurd hh.symm (by simp)
    | @step h s call hr hf ih =>
      intro later e earlier hh e' he'
      cases later with
      | nil => exact nomatch he'
      | cons e'' later =>
        obtain ⟨rfl, hh'⟩ := List.cons.inj hh
        rcases List.mem_cons.mp he' with rfl | he'
        · have he : e ∈ h := hh' ▸ List.mem_append_right later List.mem_cons_self
          have hi := run_inv hnew hr
          refine ⟨fun i ⟨h1, h2⟩ => ?_, fun i ⟨h1, h2⟩ => ?_, fun i ⟨h1, h2⟩ => ?_⟩
          · obtain ⟨v, hv⟩ := takesInvitation_before h2
            exact hi.takenInvitation he h1 hv
          · obtain ⟨claim, hget, hp⟩ := resolves_before h2
            exact hi.resolved he h1 hget hp
          · obtain ⟨v, hv⟩ := takesChallenge_before h2
            exact hi.takenChallenge he h1 hv
        · exact ih later e earlier hh' e' he'
  · induction hr with
    | start => exact fun later e' between e earlier _ _ _ hh => absurd hh.symm (by simp)
    | @step h s call hr hf ih =>
      intro later e' between e earlier cookieToken auth auth' hh hc hc'
      cases later with
      | nil =>
        obtain ⟨rfl, hh'⟩ := List.cons.inj hh
        obtain ⟨session, hget, hconnected⟩ := connects_before hc'
        obtain ⟨-, hopen⟩ := (run_inv hnew hr).sockets hh' hc hget
        by_contra hnone
        have := hopen fun r hm hcall => hnone ⟨r, hm, hcall⟩
        rw [hconnected] at this
        exact nomatch this
      | cons e'' later =>
        exact ih later e' between e earlier cookieToken auth auth' (List.cons.inj hh).2 hc hc'

/-! ## A run -/

/-- A P-256 key and its signature of the bytes `0, .., 31`, in Base64. -/
def publicKeyBase64 : String :=
  "BHzyexiNA09+ilI4AwS1GsPAiWnid/IbNaYLSPxHZpl4B3dVENuO0EApPZrGn3Qw27p9reY86YIpngS3nSJ4c9E="

def signatureBase64 : String :=
  "Xsvk0aYzCkTI9++VHUvxZebGtyHvramF+0FmG8bn/WxgNzJEO7jCpWEAu9D8w2oJQIqw9XDYV0bgwYGFOI0D5w=="

/-- The values of the functions on the key, the signature, the bytes and the token of the run. -/
def runCrypto : Crypto where
  base64Decode text :=
    if text = publicKeyBase64 then
      some [4, 124, 242, 123, 24, 141, 3, 79, 126, 138, 82, 56, 3, 4, 181, 26, 195, 192, 137, 105,
        226, 119, 242, 27, 53, 166, 11, 72, 252, 71, 102, 153, 120, 7, 119, 85, 16, 219, 142, 208,
        64, 41, 61, 154, 198, 159, 116, 48, 219, 186, 125, 173, 230, 60, 233, 130, 41, 158, 4, 183,
        157, 34, 120, 115, 209]
    else if text = signatureBase64 then
      some [94, 203, 228, 209, 166, 51, 10, 68, 200, 247, 239, 149, 29, 75, 241, 101, 230, 198, 183,
        33, 239, 173, 169, 133, 251, 65, 102, 27, 198, 231, 253, 108, 96, 55, 50, 68, 59, 184, 194,
        165, 97, 0, 187, 208, 252, 195, 106, 9, 64, 138, 176, 245, 112, 216, 87, 70, 224, 193, 129,
        133, 56, 141, 3, 231]
    else none
  base64Encode _ := "AAECAwQFBgcICQoLDA0ODxAREhMUFRYXGBkaGxwdHh8="
  sha256 _ := [215, 232, 62, 40, 160, 75, 83, 126, 100, 66, 69, 70, 177, 76, 175, 155, 103, 186,
    210, 242, 141, 171, 206, 104, 17, 110, 13, 55, 35, 25, 250, 0]
  hexEncode _ := ""
  verify _ _ _ := true
  uuidToString _ := ""

/-- One device, approved at time 0. -/
def runRegistry : DeviceRegistry where
  version := registryVersion
  routeId := "abcdefghijklmnopqrstuvwx"
  devices := [⟨⟨1⟩, "phone", .ios, [.view], publicKeyBase64, 0, none, none⟩]

theorem new_runRegistry :
    new runCrypto runRegistry = .ok ⟨runRegistry, .empty, .empty, .empty, .empty, []⟩ := by
  have hroute : ¬ (runRegistry.routeId.utf8ByteSize ≠ 24 ||
      !runRegistry.routeId.toList.all fun b => b.isLower || b.isDigit) = true := by decide
  have hdevices : ¬ (!runRegistry.devices.all fun device => device.validate runCrypto) = true := by
    decide
  have hvalid : runRegistry.validate runCrypto = .ok runRegistry := by
    rw [DeviceRegistry.validate, if_neg (by decide), if_neg hroute, if_neg (by decide),
      if_neg hdevices]
    simp [runRegistry, DeviceRegistry.retainNewest]
  rw [new, hvalid]
  rfl

/-- A device that authenticates and connects. -/
theorem pairing_sound_connected : ∃ s₀ h s, Run runCrypto s₀ h s ∧
    (∃ e ∈ h, ∃ auth, e.Connects "cookie" auth) ∧ AuthorizationsGrounded runCrypto s₀ h ∧
      RevokedForGood h ∧ ConsumedOnce runCrypto h ∧ OneSocketPerCookie h ∧
        ∀ d, s.connections d ≤ maxConnectionsPerDevice := by
  have h0 : Run runCrypto ⟨runRegistry, .empty, .empty, .empty, .empty, []⟩ [] _ := .start
  have h1 := h0.step (.createChallenge ⟨⟨1⟩⟩ 1 ⟨2⟩ ((List.range 32).map UInt8.ofNat))
    (by simp [Fresh])
  have h2 := h1.step (.authenticate ⟨⟨1⟩, ⟨2⟩, signatureBase64, 0⟩ 2 ⟨3⟩ "cookie")
    (by simp [Fresh, Call.cookieTokens])
  have h3 := h2.step (.connectSession "cookie" 3) (by simp [Fresh, Call.cookieTokens])
  exact ⟨_, _, _, h3, ⟨_, List.mem_cons_self, ⟨⟨3⟩, ⟨1⟩, "phone", [.view]⟩, 3, rfl, rfl⟩,
    pairing_sound new_runRegistry h3⟩

end Clinch
