import Kaleidoscope.Account.Logout

/-!
# The logout of all devices

`DeviceServer` is a server on which revoking a device ends the sessions of that device: it serves
the requests of a token whose device is not revoked, and no others.

    revokeEach_yields       one pass over the list, whatever it contains
    logoutAllDevices_iff    the logout completes exactly where the list passes its checks and does
                            not contain the device that logs out
-/

namespace Kaleidoscope.Account

open Prog

/-! ## The server -/

/-- What the client relies on in the crates that make the requests of this logout. -/
structure DeviceRequests (crates : External) (devices : List DeviceSummary) : Prop where
  empty : ∃ body, crates.toVec .empty = some body
    ∧ crates.decodeValue body = some (.object []) ∧ body.size ≤ 2
  uuid : ∀ device ∈ devices,
    crates.parseUuid (crates.showUuid device.deviceId) = some device.deviceId

/-- A server that lists `devices` and on which revoking a device ends the sessions of that device;
no request to it fails on the way. -/
structure DeviceServer (crates : External) {σ : Type} (env : σ → (e : Event) → e.Answer × σ)
    (devices : List DeviceSummary) where
  /-- the device whose session an access token belongs to -/
  owner : σ → SecretString → Option Uuid
  revoked : σ → Uuid → Prop
  keeps : ∀ s e token device, owner s token = some device →
    (∀ request deadline, e = .send request deadline → request.endpoint ≠ .revokeTokenFamily) →
    owner (env s e).2 token = some device
  stays : ∀ s e device, revoked s device → revoked (env s e).2 device
  /-- a device is revoked only by a request that names it -/
  asked : ∀ s e device, revoked (env s e).2 device → revoked s device
    ∨ ∃ request deadline, e = .send request deadline ∧ request.endpoint = .revokeDevice device
  granted : ∀ s request deadline response wire, (env s (.send request deadline)).1 = .ok response →
    request.grants = true → response.status = 200 →
    crates.decodeSession response.body = some wire →
    owner (env s (.send request deadline)).2 ⟨wire.accessToken⟩ = some wire.deviceId
      ∧ ¬revoked (env s (.send request deadline)).2 wire.deviceId
  lists : ∀ s request deadline token device, request.endpoint = .listDevices →
    request.accessToken = some token → owner s token = some device → ¬revoked s device →
    ∃ response, (env s (.send request deadline)).1 = .ok response
      ∧ parseSuccess crates crates.decodeDevices response 200 = .ok ⟨devices⟩
  revokes : ∀ s request deadline token device id, request.endpoint = .revokeDevice id →
    request.accessToken = some token → owner s token = some device → ¬revoked s device →
    (∃ response, (env s (.send request deadline)).1 = .ok response
        ∧ expectEmptySuccess crates response 204 = .ok ())
      ∧ revoked (env s (.send request deadline)).2 id
  ends : ∀ s request deadline token device, request.endpoint = .revokeTokenFamily →
    request.accessToken = some token → owner s token = some device → ¬revoked s device →
    ∃ response, (env s (.send request deadline)).1 = .ok response
      ∧ expectEmptySuccess crates response 204 = .ok ()
  /-- the sessions of a revoked device have ended -/
  refuses : ∀ s request deadline token device, request.accessToken = some token →
    owner s token = some device → revoked s device →
    ∃ response, (env s (.send request deadline)).1 = .ok response ∧ response.status ≠ 204

/-! ## Requests -/

variable {crates : External} {config : AccountClientConfig}

theorem accessToken_of_json {endpoint : AccountEndpoint} {token : Option SecretString}
    {content : WireContent} {request : WireRequest}
    (h : WireRequest.json crates endpoint token content = .ok request) :
    request.accessToken = token := by
  unfold WireRequest.json at h
  split at h
  next => cases h
  next body _ =>
    obtain ⟨_, _, hrequest⟩ := except_bind_eq_ok.mp h
    cases hrequest
    rfl

theorem request_of_accountEmpty {endpoint : AccountEndpoint} {token : SecretString}
    {request : WireRequest} (h : WireRequest.accountEmpty crates endpoint token = .ok request) :
    request.endpoint = endpoint ∧ request.accessToken = some token := by
  obtain ⟨_, _, hrequest⟩ := except_bind_eq_ok.mp h
  cases hrequest
  exact ⟨rfl, rfl⟩

theorem eq_ok_of_isOk {α : Type} {r : AccountResult α} (h : r.isOk = true) : ∃ a, r = .ok a := by
  cases r with
  | error error => cases h
  | ok a => exact ⟨a, rfl⟩

theorem expectEmptySuccess_refused {response : WireResponse} (h : response.status ≠ 204) :
    expectEmptySuccess crates response 204 = .error (mapErrorResponse crates response) := by
  unfold expectEmptySuccess
  rw [if_neg (by simp [h])]

section

variable {σ : Type} {env : σ → (e : Event) → e.Answer × σ} {slot : σ → Option StoredCredential}
  {devices : List DeviceSummary}

/-- What the steps of a session of `device` keep. -/
structure SessionKept (server : DeviceServer crates env devices)
    (slot : σ → Option StoredCredential) (token : SecretString) (device : Uuid) (s s' : σ) :
    Prop where
  owner : server.owner s' token = some device
  stays : ∀ id, server.revoked s id → server.revoked s' id
  slot : slot s' = slot s

variable {server : DeviceServer crates env devices} {token : SecretString} {device : Uuid}

theorem SessionKept.trans {s s₁ s₂ : σ} (h : SessionKept server slot token device s s₁)
    (h' : SessionKept server slot token device s₁ s₂) :
    SessionKept server slot token device s s₂ :=
  ⟨h'.owner, fun id hid => h'.stays id (h.stays id hid), h'.slot.trans h.slot⟩

/-- Where a request is sent: the clock was read, and nothing else happened. -/
structure SendsAt (server : DeviceServer crates env devices) (slot : σ → Option StoredCredential)
    (token : SecretString) (device : Uuid) (s s₀ : σ) : Prop where
  kept : SessionKept server slot token device s s₀
  revoked : server.revoked s₀ device ↔ server.revoked s device

theorem yields_send (hslot : StoreSlot env slot) {r : AccountResult WireRequest}
    {request : WireRequest} {deadline : Nat} {s : σ} (howner : server.owner s token = some device)
    (hr : r = .ok request) :
    Yields env (fun answer s' => ∃ s₀ deadlineUnix, SendsAt server slot token device s s₀
        ∧ answer = (env s₀ (.send request deadlineUnix)).1
        ∧ s' = (env s₀ (.send request deadlineUnix)).2)
      (send config r deadline) s := by
  subst hr
  refine yields_ask_bind.mpr (yields_ask_bind.mpr (yields_ofExcept.mpr ?_))
  refine ⟨(env s .nowUnix).2, _, ⟨⟨?_, ?_, ?_⟩, ?_, ?_⟩, rfl, rfl⟩
  · exact server.keeps s .nowUnix token device howner nofun
  · exact fun id => server.stays s .nowUnix id
  · exact slot_aside hslot s (e := .nowUnix) trivial
  · intro h
    rcases server.asked s .nowUnix device h with h | ⟨_, _, h, _⟩
    · exact h
    · cases h
  · exact server.stays s .nowUnix device

/-! ## One pass over the list -/

/-- What the pass over the listed devices does to the server, begun in `s`. -/
structure Revoking (server : DeviceServer crates env devices) (slot : σ → Option StoredCredential)
    (token : SecretString) (device : Uuid) (listed : List DeviceSummary) (s : σ)
    (r : AccountResult Unit) (s' : σ) : Prop where
  kept : SessionKept server slot token device s s'
  revoked : r = .ok () → ∀ summary ∈ listed, server.revoked s' summary.deviceId
  /-- a session whose device is not named goes on -/
  spared : ¬server.revoked s device → device ∉ listed.map DeviceSummary.deviceId →
    r = .ok () ∧ ¬server.revoked s' device

theorem revokeEach_yields (hslot : StoreSlot env slot) (htoken : token.isBoundedAscii = true)
    (listed : List DeviceSummary) (hrequests : DeviceRequests crates listed) : ∀ s : σ,
      server.owner s token = some device →
      Yields env (Revoking server slot token device listed s)
        (revokeEach crates config token listed) s := by
  induction listed with
  | nil =>
    intro s howner
    exact yields_done.mpr
      ⟨⟨howner, fun _ h => h, rfl⟩, fun _ _ h => (List.not_mem_nil h).elim, fun h _ => ⟨rfl, h⟩⟩
  | cons summary rest ih =>
    intro s howner
    have hbuilt : (WireRequest.revokeDevice crates token summary.deviceId).isOk = true :=
      accountJson_isOk hrequests.empty
        (reparsed_revokeDevice (hrequests.uuid summary (List.mem_cons.mpr (.inl rfl)))) rfl htoken
    obtain ⟨request, hrequest⟩ := eq_ok_of_isOk hbuilt
    have hendpoint := endpoint_of_json hrequest
    have haccess := accessToken_of_json hrequest
    have hrest : DeviceRequests crates rest :=
      ⟨hrequests.empty, fun other h => hrequests.uuid other (List.mem_cons.mpr (.inr h))⟩
    refine yields_bind (yields_send hslot howner hrequest) ?_ ?_
    · rintro response s₁ ⟨s₀, deadlineUnix, hat, hanswer, rfl⟩
      have hkept : SessionKept server slot token device s
          (env s₀ (.send request deadlineUnix)).2 := by
        refine hat.kept.trans ⟨?_, fun id => server.stays _ _ id, ?_⟩
        · refine server.keeps _ _ token device hat.kept.owner fun request' deadline' h => ?_
          cases h
          rw [hendpoint]
          exact nofun
        · exact slot_aside hslot s₀ (e := .send request deadlineUnix)
            (quiet_accountJson_empty request hrequest)
      by_cases hrevoked : server.revoked s₀ device
      · -- the session has ended: the request is refused, and the pass with it
        obtain ⟨response', hresponse, hstatus⟩ :=
          server.refuses s₀ request deadlineUnix token device haccess hat.kept.owner hrevoked
        rw [← hanswer] at hresponse
        cases hresponse
        rw [expectEmptySuccess_refused hstatus]
        refine yields_done.mpr ⟨hkept, nofun, fun hlive => ?_⟩
        exact absurd (hat.revoked.mp hrevoked) hlive
      · obtain ⟨⟨response', hresponse, hexpect⟩, hnamed⟩ := server.revokes s₀ request deadlineUnix
          token device summary.deviceId hendpoint haccess hat.kept.owner hrevoked
        rw [← hanswer] at hresponse
        cases hresponse
        rw [hexpect]
        refine yields_mono (ih hrest _ hkept.owner) fun r s' h => ⟨hkept.trans h.kept, ?_, ?_⟩
        · intro hok other hmem
          rcases List.mem_cons.mp hmem with rfl | hmem
          · exact h.kept.stays _ hnamed
          · exact h.revoked hok other hmem
        · intro hlive hnot
          rw [List.map_cons, List.mem_cons, not_or] at hnot
          refine h.spared (fun hrevoked' => ?_) hnot.2
          rcases server.asked _ _ _ hrevoked' with h | ⟨request', _, heq, hendpoint'⟩
          · exact hrevoked h
          · cases heq
            rw [hendpoint] at hendpoint'
            cases hendpoint'
            exact hnot.1 rfl
    · rintro error s₁ ⟨s₀, deadlineUnix, hat, hanswer, rfl⟩
      -- no request fails on the way
      by_cases hrevoked : server.revoked s₀ device
      · obtain ⟨_, hresponse, _⟩ :=
          server.refuses s₀ request deadlineUnix token device haccess hat.kept.owner hrevoked
        rw [← hanswer] at hresponse
        cases hresponse
      · obtain ⟨⟨_, hresponse, _⟩, _⟩ := server.revokes s₀ request deadlineUnix token device
          summary.deviceId hendpoint haccess hat.kept.owner hrevoked
        rw [← hanswer] at hresponse
        cases hresponse

/-! ## The logout -/

/-- Every listed device is revoked, and the store is empty. -/
structure LoggedOut (server : DeviceServer crates env devices) (slot : σ → Option StoredCredential)
    (s : σ) : Prop where
  revoked : ∀ summary ∈ devices, server.revoked s summary.deviceId
  forgotten : slot s = none

/-- The condition under which the logout completes. -/
structure LeavesItself (devices : List DeviceSummary) (device : Uuid) : Prop where
  valid : validDevices devices = true
  unlisted : device ∉ devices.map DeviceSummary.deviceId

theorem not_loggedOut {s : σ} (h : (slot s).isSome = true) : ¬LoggedOut server slot s := by
  intro hout
  rw [hout.forgotten] at h
  cases h

/-- The list that the server returned. -/
theorem listDevices_yields (hslot : StoreSlot env slot) (htoken : token.isBoundedAscii = true)
    {s : σ} (howner : server.owner s token = some device) (hlive : ¬server.revoked s device) :
    Yields env (fun r s' => SessionKept server slot token device s s'
        ∧ ¬server.revoked s' device
        ∧ r = if validDevices devices = true then .ok { version := 1, devices }
          else .error .invalidResponse)
      (listDevicesWithAccess crates config token) s := by
  have hbuilt : (WireRequest.listDevices crates token).isOk = true :=
    accountEmpty_isOk (reparsed_fixed (by decide)) rfl htoken
  obtain ⟨request, hrequest⟩ := eq_ok_of_isOk hbuilt
  obtain ⟨hendpoint, haccess⟩ := request_of_accountEmpty hrequest
  have hserved : ∀ s₀ deadlineUnix, SendsAt server slot token device s s₀ →
      ∃ response, (env s₀ (.send request deadlineUnix)).1 = .ok response
        ∧ parseSuccess crates crates.decodeDevices response 200 = .ok ⟨devices⟩ := by
    intro s₀ deadlineUnix hat
    exact server.lists s₀ request deadlineUnix token device hendpoint haccess hat.kept.owner
      fun h => hlive (hat.revoked.mp h)
  refine yields_bind (yields_send hslot howner hrequest) ?_ ?_
  · rintro response s₁ ⟨s₀, deadlineUnix, hat, hanswer, rfl⟩
    have hkept : SessionKept server slot token device s
        (env s₀ (.send request deadlineUnix)).2 := by
      refine hat.kept.trans ⟨?_, fun id => server.stays _ _ id, ?_⟩
      · refine server.keeps _ _ token device hat.kept.owner fun request' deadline' h => ?_
        cases h
        rw [hendpoint]
        exact nofun
      · exact slot_aside hslot s₀ (e := .send request deadlineUnix)
          (quiet_accountEmpty request hrequest)
    have hlive' : ¬server.revoked (env s₀ (.send request deadlineUnix)).2 device := by
      intro h
      rcases server.asked _ _ _ h with h | ⟨request', _, heq, hrevoke⟩
      · exact hlive (hat.revoked.mp h)
      · cases heq
        rw [hendpoint] at hrevoke
        cases hrevoke
    obtain ⟨_, hresponse, hparse⟩ := hserved s₀ deadlineUnix hat
    rw [← hanswer] at hresponse
    cases hresponse
    rw [hparse]
    refine yields_failIf_bind (fun hvalid => ?_) fun hinvalid => ?_
    · rw [Bool.not_eq_true', Bool.not_eq_false] at hvalid
      exact yields_done.mpr ⟨hkept, hlive', by rw [if_pos hvalid]⟩
    · rw [Bool.not_eq_true'] at hinvalid
      exact ⟨hkept, hlive', by rw [if_neg (by rw [hinvalid]; exact nofun)]⟩
  · rintro error s₁ ⟨s₀, deadlineUnix, hat, hanswer, rfl⟩
    obtain ⟨_, hresponse, _⟩ := hserved s₀ deadlineUnix hat
    rw [← hanswer] at hresponse
    cases hresponse

/-- What follows the pass: the session is revoked and the credential removed, unless the pass
ended the session. -/
theorem forget_yields (hslot : StoreSlot env slot) (hdelete : ∀ s, (env s .delete).1.isOk = true)
    (htoken : token.isBoundedAscii = true) (hrequests : DeviceRequests crates devices) {s : σ}
    (howner : server.owner s token = some device) (hsome : (slot s).isSome = true)
    (hrevoked : ∀ summary ∈ devices, server.revoked s summary.deviceId)
    (hvalid : validDevices devices = true)
    (hspared : device ∉ devices.map DeviceSummary.deviceId → ¬server.revoked s device) :
    Yields env (fun _ s' => LoggedOut server slot s' ↔ LeavesItself devices device)
      (do
        let response ← send config (WireRequest.revoke crates token) u64Max
        ofExcept (expectEmptySuccess crates response 204)
        let removed ← delete
        return ({ version := 1, status := "all_devices_revoked", remoteRevoked := true,
                  localCredentialRemoved := removed, warning := none } : LogoutResult)) s := by
  have hbuilt : (WireRequest.revoke crates token).isOk = true :=
    accountJson_isOk hrequests.empty (reparsed_fixed (by decide)) rfl htoken
  obtain ⟨request, hrequest⟩ := eq_ok_of_isOk hbuilt
  have hendpoint := endpoint_of_json hrequest
  have haccess := accessToken_of_json hrequest
  refine yields_bind (yields_send hslot howner hrequest) ?_ ?_
  · rintro response s₁ ⟨s₀, deadlineUnix, hat, hanswer, rfl⟩
    have hslot₁ : slot (env s₀ (.send request deadlineUnix)).2 = slot s := by
      rw [slot_aside hslot s₀ (e := .send request deadlineUnix)
        (quiet_accountJson_empty request hrequest)]
      exact hat.kept.slot
    by_cases hended : server.revoked s₀ device
    · obtain ⟨_, hresponse, hstatus⟩ :=
        server.refuses s₀ request deadlineUnix token device haccess hat.kept.owner hended
      rw [← hanswer] at hresponse
      cases hresponse
      rw [expectEmptySuccess_refused hstatus]
      refine yields_done.mpr (iff_of_false (not_loggedOut (by rw [hslot₁]; exact hsome)) ?_)
      exact fun h => hspared h.unlisted (hat.revoked.mp hended)
    · obtain ⟨_, hresponse, hexpect⟩ :=
        server.ends s₀ request deadlineUnix token device hendpoint haccess hat.kept.owner hended
      rw [← hanswer] at hresponse
      cases hresponse
      rw [hexpect]
      obtain ⟨removed, hrun⟩ := delete_run (hdelete (env s₀ (.send request deadlineUnix)).2)
      refine ⟨_, _, run_bind_ok hrun, iff_of_true ⟨fun summary hmem => ?_, ?_⟩ ⟨hvalid, ?_⟩⟩
      · exact server.stays _ _ _ (server.stays _ _ _ (hat.kept.stays _ (hrevoked summary hmem)))
      · exact (run_delete hslot hrun).2
      · intro hmem
        obtain ⟨summary, hlisted, rfl⟩ := List.mem_map.mp hmem
        exact hended (hat.kept.stays _ (hrevoked summary hlisted))
  · rintro error s₁ ⟨s₀, deadlineUnix, hat, hanswer, rfl⟩
    by_cases hended : server.revoked s₀ device
    · obtain ⟨_, hresponse, _⟩ :=
        server.refuses s₀ request deadlineUnix token device haccess hat.kept.owner hended
      rw [← hanswer] at hresponse
      cases hresponse
    · obtain ⟨_, hresponse, _⟩ :=
        server.ends s₀ request deadlineUnix token device hendpoint haccess hat.kept.owner hended
      rw [← hanswer] at hresponse
      cases hresponse

theorem revokeAndForget_yields (hslot : StoreSlot env slot)
    (hdelete : ∀ s, (env s .delete).1.isOk = true) {active : ActiveSession}
    (htoken : active.accessToken.isBoundedAscii = true) (hrequests : DeviceRequests crates devices)
    {s : σ} (howner : server.owner s active.accessToken = some device)
    (hlive : ¬server.revoked s device) (hsome : (slot s).isSome = true) :
    Yields env (fun _ s' => LoggedOut server slot s' ↔ LeavesItself devices device)
      (revokeAndForget crates config .allDevices active) s := by
  -- the list and the pass over it
  have hpass : Yields env (fun r s' => SessionKept server slot active.accessToken device s s'
      ∧ (r = .ok () → validDevices devices = true
        ∧ (∀ summary ∈ devices, server.revoked s' summary.deviceId)
        ∧ (device ∉ devices.map DeviceSummary.deviceId → ¬server.revoked s' device))
      ∧ (∀ error, r = .error error → ¬LeavesItself devices device))
      (runIf (LogoutScope.allDevices = .allDevices) (do
        let listed ← listDevicesWithAccess crates config active.accessToken
        revokeEach crates config active.accessToken listed.devices)) s := by
    unfold runIf
    rw [if_pos rfl]
    refine yields_bind (listDevices_yields hslot htoken howner hlive) ?_ ?_
    · rintro listed s₁ ⟨hkept, hlive₁, hlisted⟩
      by_cases hvalid : validDevices devices = true
      · rw [if_pos hvalid] at hlisted
        cases hlisted
        refine yields_mono (revokeEach_yields hslot htoken devices hrequests s₁ hkept.owner)
          fun r s' h => ⟨hkept.trans h.kept, fun hok => ⟨hvalid, h.revoked hok, fun hnot =>
            (h.spared hlive₁ hnot).2⟩, fun error herror hleaves => ?_⟩
        rw [herror] at h
        cases (h.spared hlive₁ hleaves.unlisted).1
      · rw [if_neg hvalid] at hlisted
        cases hlisted
    · rintro error s₁ ⟨hkept, _, hlisted⟩
      by_cases hvalid : validDevices devices = true
      · rw [if_pos hvalid] at hlisted
        cases hlisted
      · exact ⟨hkept, nofun, fun _ _ hleaves => hvalid hleaves.valid⟩
  refine yields_bind hpass ?_ ?_
  · rintro _ s₁ ⟨hkept, hok, _⟩
    obtain ⟨hvalid, hrevoked, hspared⟩ := hok rfl
    exact forget_yields hslot hdelete htoken hrequests hkept.owner (by rw [hkept.slot]; exact hsome)
      hrevoked hvalid hspared
  · rintro error s₁ ⟨hkept, _, herror⟩
    exact iff_of_false (not_loggedOut (by rw [hkept.slot]; exact hsome)) (herror error rfl)

/-- Once the refresh succeeded, the logout goes on from where it ended. -/
theorem run_logout_refreshed {scope : LogoutScope} {s s₁ : σ} {stored : StoredCredential}
    {active : ActiveSession} (hload : (env s .load).1 = .ok (some stored))
    (hrefresh : run env (refreshAccess crates config) (env s .load).2 = some (.ok active, s₁)) :
    run env (logout crates config scope .requireRemoteRevocation) s
      = run env (revokeAndForget crates config scope active) s₁ := by
  unfold logout
  rw [run_bind_ok (run_load hload)]
  show run env (attemptRefresh crates config >>= _) _ = _
  unfold attemptRefresh
  rw [run_bind_ok (run_attempt hrefresh)]

/-- A logout of all devices that refreshed its session ends with every listed device revoked and
the credential removed exactly where the list passes its checks and does not name the device that
logs out. -/
theorem logoutAllDevices_iff (crates : External) (config : AccountClientConfig)
    (hslot : StoreSlot env slot) (hdelete : ∀ s, (env s .delete).1.isOk = true)
    (hrequests : DeviceRequests crates devices) (server : DeviceServer crates env devices)
    {s s₁ : σ} {stored : StoredCredential} {active : ActiveSession}
    (hload : (env s .load).1 = .ok (some stored))
    (hrefresh : run env (refreshAccess crates config) (env s .load).2 = some (.ok active, s₁)) :
    ∃ r s', run env (logout crates config .allDevices .requireRemoteRevocation) s = some (r, s')
      ∧ (LoggedOut server slot s' ↔ LeavesItself devices active.credential.deviceId) := by
  have hrenewed := refreshAccess_ok hrefresh
  have hsome : (slot s₁).isSome = true := by
    rw [hrenewed.slot hslot]
    rfl
  obtain ⟨s₀, request, deadline, response, wire, hanswer, hgrants, hstatus, hdecode, haccess,
    hdevice, hend, _⟩ := hrenewed.granted
  obtain ⟨howner, hlive⟩ :=
    server.granted s₀ request deadline response wire hanswer hgrants hstatus hdecode
  rw [← haccess, ← hdevice] at howner
  rw [← hdevice] at hlive
  -- the clock, the store and the lock leave the server as it is
  have hstep : ∀ s e, (∀ request deadline, e ≠ Event.send request deadline) →
      server.owner s active.accessToken = some active.credential.deviceId
        ∧ ¬server.revoked s active.credential.deviceId →
      server.owner (env s e).2 active.accessToken = some active.credential.deviceId
        ∧ ¬server.revoked (env s e).2 active.credential.deviceId := by
    rintro s e he ⟨howner, hlive⟩
    refine ⟨server.keeps s e _ _ howner fun request deadline h => absurd h (he request deadline), ?_⟩
    intro h
    rcases server.asked s e _ h with h | ⟨request, deadline, h, _⟩
    · exact hlive h
    · exact he request deadline h
  obtain ⟨howner₁, hlive₁⟩ := hstep _ .release nofun (hstep _ (.save active.credential) nofun
    (hstep _ .nowUnix nofun ⟨howner, hlive⟩))
  rw [← hend] at howner₁ hlive₁
  rw [run_logout_refreshed hload hrefresh]
  exact revokeAndForget_yields hslot hdelete hrenewed.bounded hrequests howner₁ hlive₁ hsome

end

/-! ## A server with two devices -/

def sampleSummary (id : BitVec 128) : DeviceSummary :=
  { deviceId := ⟨id⟩, label := "Laptop".toList, platform := .linux, createdAt := 1, lastSeenAt := 2,
    revoked := false }

def summaryText (summary : DeviceSummary) : Text :=
  "\x7b\"device_id\":\"".toList ++ sampleUuid summary.deviceId
    ++ "\",\"label\":\"Laptop\",\"platform\":\"linux\",\"created_at\":1,".toList
    ++ "\"last_seen_at\":2,\"revoked\":false\x7d".toList

def devicesBody (devices : List DeviceSummary) : Bytes :=
  Text.asciiBytes ("\x7b\"devices\":[".toList
    ++ List.intercalate [','] (devices.map summaryText) ++ "]\x7d".toList)

def readDevices : Bytes → Option DevicesWire :=
  sampleDecode (fun wire => some (devicesBody wire.devices))
    [⟨[sampleSummary 4]⟩, ⟨[sampleSummary 2, sampleSummary 4]⟩]

/-- The crates on the inputs of the two devices. -/
def deviceCrates : External := { sampleCrates with
  parseUuid := fun t => [⟨2⟩, ⟨4⟩].find? fun id => sampleUuid id == t
  decodeDevices := readDevices }

structure ServerState where
  slot : Option StoredCredential
  revoked : List Uuid
  ended : Bool

/-- The device of the sample credential. -/
def currentDevice : Uuid := ⟨2⟩

def ServerState.initial : ServerState := ⟨some sampleCredential, [], false⟩

/-- The session of the sample credential is open. -/
def ServerState.open (s : ServerState) : Bool := !s.ended && !s.revoked.contains currentDevice

def noContent : WireResponse := ⟨204, ByteArray.empty⟩
def unauthorized : WireResponse := ⟨401, ByteArray.empty⟩

/-- The answer to a request and the state after it. -/
def serve (devices : List DeviceSummary) (s : ServerState) (request : WireRequest) :
    WireResponse × ServerState :=
  let admitted := s.open && request.accessToken = some ⟨sampleSecret 'a'⟩
  match request.endpoint with
  | .listDevices => if admitted then (⟨200, devicesBody devices⟩, s) else (unauthorized, s)
  | .revokeDevice id =>
    if admitted then (noContent, { s with revoked := id :: s.revoked }) else (unauthorized, s)
  | .revokeTokenFamily =>
    if admitted then (noContent, { s with ended := true }) else (unauthorized, s)
  | _ => if s.open && request.grants then (⟨200, sampleBody nextSession⟩, s) else (unauthorized, s)

def serverEnv (devices : List DeviceSummary) (s : ServerState) :
    (e : Event) → e.Answer × ServerState
  | .send request _ => (.ok (serve devices s request).1, (serve devices s request).2)
  | e => ((storeEnv ⟨200, sampleBody nextSession⟩ s.slot e).1,
    { s with slot := (storeEnv ⟨200, sampleBody nextSession⟩ s.slot e).2 })

theorem serverEnv_slot (devices : List DeviceSummary) :
    StoreSlot (serverEnv devices) ServerState.slot where
  load _ _ h := by
    cases h
    rfl
  delete _ _ h := by
    cases h
    rfl
  after s e := by
    cases e with
    | send request deadline =>
      show (serve devices s request).2.slot = s.slot
      unfold serve
      dsimp only
      split <;> split <;> rfl
    | _ => rfl

theorem serverEnv_load (devices : List DeviceSummary) :
    (serverEnv devices .initial .load).1 = .ok (some sampleCredential) := rfl

/-- A session that is granted is the next one, and only an open session is granted one. -/
theorem serve_granted {devices : List DeviceSummary} {s : ServerState} {request : WireRequest}
    {wire : SessionWire} (hdevices : deviceCrates.decodeSession (devicesBody devices) = none)
    (hstatus : (serve devices s request).1.status = 200)
    (hdecode : deviceCrates.decodeSession (serve devices s request).1.body = some wire) :
    wire = nextSession ∧ s.open = true ∧ (serve devices s request).2 = s := by
  have hnext : deviceCrates.decodeSession (sampleBody nextSession) = some nextSession := by
    decide +kernel
  revert hstatus hdecode
  unfold serve
  dsimp only
  split <;> split <;> rename_i hif <;> intro hstatus hdecode
  · rw [hdevices] at hdecode
    cases hdecode
  · cases hstatus
  · cases hstatus
  · cases hstatus
  · cases hstatus
  · cases hstatus
  · rw [hnext] at hdecode
    cases hdecode
    exact ⟨rfl, (Bool.and_eq_true_iff.mp hif).1, rfl⟩
  · cases hstatus

theorem serve_ended {devices : List DeviceSummary} {s : ServerState} {request : WireRequest}
    (h : request.endpoint ≠ .revokeTokenFamily) :
    (serve devices s request).2.ended = s.ended := by
  unfold serve
  dsimp only
  split
  · split <;> rfl
  · split <;> rfl
  next hfamily => exact absurd hfamily h
  · split <;> rfl

theorem serve_revoked (devices : List DeviceSummary) (s : ServerState) (request : WireRequest) :
    (serve devices s request).2.revoked = s.revoked
      ∨ ∃ id, request.endpoint = .revokeDevice id
        ∧ (serve devices s request).2.revoked = id :: s.revoked := by
  unfold serve
  dsimp only
  split
  · split <;> exact .inl rfl
  next id hid =>
    split
    · exact .inr ⟨id, hid, rfl⟩
    · exact .inl rfl
  · split <;> exact .inl rfl
  · split <;> exact .inl rfl

/-- The device of the session that holds the token. -/
def ServerState.owner (s : ServerState) (token : SecretString) : Option Uuid :=
  if s.ended = false ∧ token = ⟨sampleSecret 'a'⟩ then some currentDevice else none

theorem owner_eq_some {s : ServerState} {token : SecretString} {device : Uuid} :
    s.owner token = some device
      ↔ (s.ended = false ∧ token = ⟨sampleSecret 'a'⟩) ∧ currentDevice = device := by
  unfold ServerState.owner
  rw [Option.ite_none_right_eq_some, Option.some.injEq]

theorem serverEnv_revoked (devices : List DeviceSummary) (s : ServerState) (e : Event) :
    (serverEnv devices s e).2.revoked = s.revoked
      ∨ ∃ request deadline id, e = .send request deadline ∧ request.endpoint = .revokeDevice id
        ∧ (serverEnv devices s e).2.revoked = id :: s.revoked := by
  cases e with
  | send request deadline =>
    rcases serve_revoked devices s request with h | ⟨id, hid, h⟩
    · exact .inl h
    · exact .inr ⟨request, deadline, id, rfl, hid, h⟩
  | _ => exact .inl rfl

/-- The session is open to a token whose device is not revoked. -/
theorem admitted_of_owner {s : ServerState} {request : WireRequest} {token : SecretString}
    {device : Uuid} (htoken : request.accessToken = some token)
    (howner : s.owner token = some device) (hlive : ¬device ∈ s.revoked) :
    (s.open && decide (request.accessToken = some ⟨sampleSecret 'a'⟩)) = true := by
  obtain ⟨⟨hended, rfl⟩, rfl⟩ := owner_eq_some.mp howner
  simp [ServerState.open, hended, hlive, htoken]

/-- The server serves its one session until the device is revoked or the session ends. -/
def sampleServer (devices : List DeviceSummary)
    (hbody : deviceCrates.decodeSession (devicesBody devices) = none)
    (hlist : parseSuccess deviceCrates deviceCrates.decodeDevices ⟨200, devicesBody devices⟩ 200
      = .ok ⟨devices⟩) : DeviceServer deviceCrates (serverEnv devices) devices where
  owner := ServerState.owner
  revoked s device := device ∈ s.revoked
  keeps s e token device howner hfamily := by
    obtain ⟨⟨hended, htoken⟩, hdevice⟩ := owner_eq_some.mp howner
    refine owner_eq_some.mpr ⟨⟨?_, htoken⟩, hdevice⟩
    cases e with
    | send request deadline => exact (serve_ended (hfamily request deadline rfl)).trans hended
    | _ => exact hended
  stays s e device h := by
    rcases serverEnv_revoked devices s e with heq | ⟨_, _, _, _, _, heq⟩
    · rwa [heq]
    · rw [heq]
      exact List.mem_cons.mpr (.inr h)
  asked s e device h := by
    rcases serverEnv_revoked devices s e with heq | ⟨request, deadline, id, he, hid, heq⟩
    · rw [heq] at h
      exact .inl h
    · rw [heq] at h
      rcases List.mem_cons.mp h with rfl | h
      · exact .inr ⟨request, deadline, he, hid⟩
      · exact .inl h
  granted s request deadline response wire hanswer _ hstatus hdecode := by
    cases hanswer
    obtain ⟨rfl, hopen, hsame⟩ := serve_granted hbody hstatus hdecode
    show (serve devices s request).2.owner _ = _ ∧ ¬_ ∈ (serve devices s request).2.revoked
    rw [hsame]
    simp only [ServerState.open, Bool.and_eq_true, Bool.not_eq_true', List.contains_eq_mem,
      decide_eq_false_iff_not] at hopen
    exact ⟨owner_eq_some.mpr ⟨⟨hopen.1, rfl⟩, rfl⟩, hopen.2⟩
  lists s request deadline token device hendpoint htoken howner hlive := by
    refine ⟨(serve devices s request).1, rfl, ?_⟩
    unfold serve
    simp only [hendpoint, admitted_of_owner htoken howner hlive, if_true]
    exact hlist
  revokes s request deadline token device id hendpoint htoken howner hlive := by
    refine ⟨⟨(serve devices s request).1, rfl, ?_⟩, ?_⟩
    · unfold serve
      simp only [hendpoint, admitted_of_owner htoken howner hlive, if_true]
      rfl
    · show id ∈ (serve devices s request).2.revoked
      unfold serve
      simp only [hendpoint, admitted_of_owner htoken howner hlive, if_true]
      exact List.mem_cons.mpr (.inl rfl)
  ends s request deadline token device hendpoint htoken howner hlive := by
    refine ⟨(serve devices s request).1, rfl, ?_⟩
    unfold serve
    simp only [hendpoint, admitted_of_owner htoken howner hlive, if_true]
    rfl
  refuses s request deadline token device htoken howner hrevoked := by
    obtain ⟨_, rfl⟩ := owner_eq_some.mp howner
    have hclosed : s.open = false := by simp [ServerState.open, hrevoked]
    refine ⟨(serve devices s request).1, rfl, ?_⟩
    unfold serve
    simp only [hclosed, Bool.false_and]
    split <;> exact nofun

theorem sampleDecode_head {T : Type} {encode : T → Option Bytes} {value : T} {rest : List T}
    {body : Bytes} (h : encode value = some body) :
    sampleDecode encode (value :: rest) body = some value := by
  unfold sampleDecode
  rw [List.find?_cons_of_pos (by simp [h])]

theorem sampleDecode_tail {T : Type} {encode : T → Option Bytes} {value : T} {rest : List T}
    {body : Bytes} (h : ((encode value).any fun bytes => bytes.data.toList == body.data.toList)
      = false) : sampleDecode encode (value :: rest) body = sampleDecode encode rest body :=
  List.find?_cons_of_neg (by rw [h]; decide)

theorem serverEnv_requests : DeviceRequests deviceCrates [sampleSummary 4] where
  empty := by
    have hfind : sampleDecode sampleToVec sampleContents
        ((sampleToVec .empty).getD ByteArray.empty) = some .empty := by
      decide +kernel
    refine ⟨(sampleToVec .empty).getD ByteArray.empty, rfl, ?_, by decide +kernel⟩
    show (sampleDecode sampleToVec sampleContents
      ((sampleToVec .empty).getD ByteArray.empty)).bind sampleContent = _
    rw [hfind]
    rfl
  uuid := by
    intro summary hmem
    rw [List.mem_singleton.mp hmem]
    decide +kernel

theorem listed_of_read {devices : List DeviceSummary}
    (hsize : (devicesBody devices).size ≤ maxAccountBodyBytes)
    (hread : readDevices (devicesBody devices) = some ⟨devices⟩) :
    parseSuccess deviceCrates deviceCrates.decodeDevices ⟨200, devicesBody devices⟩ 200
      = .ok ⟨devices⟩ := by
  unfold parseSuccess
  rw [if_neg (by simp [hsize]), show deviceCrates.decodeDevices = readDevices from rfl]
  simp only [hread]

/-- The other device is listed: the logout completes. -/
theorem logoutAllDevices_other : ∃ r s',
    run (serverEnv [sampleSummary 4])
        (logout deviceCrates sampleConfig .allDevices .requireRemoteRevocation)
        .initial = some (r, s')
      ∧ (⟨4⟩ : Uuid) ∈ s'.revoked ∧ s'.slot = none := by
  have hrun : (run (serverEnv [sampleSummary 4]) (refreshAccess deviceCrates sampleConfig)
      .initial).any (fun last =>
        last.1.toOption.any fun active => decide (active.credential.deviceId = ⟨2⟩)) = true := by
    decide +kernel
  obtain ⟨⟨r, s₁⟩, hrefresh, hactive⟩ := (Option.any_eq_true _ _).mp hrun
  obtain ⟨active, hr, hdevice⟩ := (Option.any_eq_true _ _).mp hactive
  have hok : r = .ok active := ok_of_toOption hr
  rw [hok] at hrefresh
  have hbody : deviceCrates.decodeSession (devicesBody [sampleSummary 4]) = none := by
    decide +kernel
  have hread : readDevices (devicesBody [sampleSummary 4]) = some ⟨[sampleSummary 4]⟩ := by
    unfold readDevices
    exact sampleDecode_head rfl
  obtain ⟨r', s', hlogout, hiff⟩ := logoutAllDevices_iff deviceCrates sampleConfig
    (serverEnv_slot _) (fun _ => rfl) serverEnv_requests
    (sampleServer _ hbody (listed_of_read (by decide +kernel) hread)) (serverEnv_load _) hrefresh
  have hunlisted : (⟨2⟩ : Uuid) ∉ [sampleSummary 4].map DeviceSummary.deviceId := by
    decide +kernel
  rw [← of_decide_eq_true hdevice] at hunlisted
  have hout := hiff.mpr ⟨by decide +kernel, hunlisted⟩
  exact ⟨r', s', hlogout, hout.revoked _ (List.mem_singleton.mpr rfl), hout.forgotten⟩

/-- The current device is listed first: the other one keeps its sessions and the credential
stays. -/
theorem logoutAllDevices_stops :
    ∃ (server : DeviceServer deviceCrates (serverEnv [sampleSummary 2, sampleSummary 4])
        [sampleSummary 2, sampleSummary 4]) (r : AccountResult LogoutResult) (s' : ServerState),
      run (serverEnv [sampleSummary 2, sampleSummary 4])
          (logout deviceCrates sampleConfig .allDevices .requireRemoteRevocation) .initial
        = some (r, s')
      ∧ ¬server.revoked s' ⟨4⟩ ∧ s'.slot.isSome = true
      ∧ ¬LoggedOut server ServerState.slot s' := by
  have hrun : (run (serverEnv [sampleSummary 2, sampleSummary 4])
      (logout deviceCrates sampleConfig .allDevices .requireRemoteRevocation)
      .initial).any (fun last =>
        decide (⟨4⟩ ∉ last.2.revoked) && last.2.slot.isSome) = true := by
    decide +kernel
  obtain ⟨⟨r, s'⟩, hlast, hstate⟩ := (Option.any_eq_true _ _).mp hrun
  obtain ⟨hrevoked, hslot⟩ := Bool.and_eq_true_iff.mp hstate
  have hunrevoked : (⟨4⟩ : Uuid) ∉ s'.revoked := of_decide_eq_true hrevoked
  have hbody : deviceCrates.decodeSession (devicesBody [sampleSummary 2, sampleSummary 4])
      = none := by
    decide +kernel
  have hread : readDevices (devicesBody [sampleSummary 2, sampleSummary 4])
      = some ⟨[sampleSummary 2, sampleSummary 4]⟩ :=
    (sampleDecode_tail (by decide +kernel)).trans (sampleDecode_head rfl)
  exact ⟨sampleServer _ hbody (listed_of_read (by decide +kernel) hread), r, s', hlast,
    hunrevoked, hslot, not_loggedOut hslot⟩

end Kaleidoscope.Account
