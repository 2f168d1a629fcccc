import MulticastTunnel.Proofs.Handshake.Operations
import MulticastTunnel.Proofs.Tunnel.Run

/-!
# Fencing by nonces

A message of the relay counts only while its answer is awaited and only under
the nonce that was sent last. The handshake keeps that nonce in an optional
field and compares against zero where there is none; `Fenced` is the invariant
which says that the field is filled whenever an answer is awaited, and filled
with the nonce that the transport was given. So a zero nonce opens nothing.
-/

namespace MulticastTunnel

open MulticastTunnel.Membership

namespace Tunnel

/-- A message of the relay that a tunnel takes in: an advertisement for the
outstanding discovery, a query for the latest request, or multicast data. -/
def Awaits (t : Tunnel) (w : World) (b : Bytes) : Prop :=
  (t.phase = .discovering ∧
    ∃ nonce relay, Message.decode b = .ok (.relayAdvertisement nonce relay) ∧
      w.lastDiscovery t.key = some nonce) ∨
  ((t.phase = .requesting ∨ t.phase = .established) ∧
    ∃ limited mac nonce packet gateway query,
      Message.decode b = .ok (.membershipQuery limited mac nonce packet gateway) ∧
      w.lastRequest t.key = some nonce ∧
      Query.ofPacket packet = .ok query ∧ query.family = t.key.family) ∨
  ∃ packet, Message.decode b = .ok (.multicastData packet)

/-- The nonce that an awaited answer has to carry is held, and is the one sent last. -/
structure Fenced (t : Tunnel) (w : World) : Prop where
  discovery : t.phase = .discovering →
    ∃ nonce, t.handshake.discoveryNonce = some nonce ∧ w.lastDiscovery t.key = some nonce
  request : t.phase = .requesting ∨ t.phase = .established →
    ∃ nonce, t.handshake.requestNonce = some nonce ∧ w.lastRequest t.key = some nonce

variable {t u : Tunnel} {w v : World}

theorem fenced_of_disconnected (h : t.phase = .disconnected) : Fenced t w :=
  ⟨fun hp => by simp [h] at hp, fun hp => by simp [h] at hp⟩

/-- Fencing depends on the handshake and on what was sent alone. -/
theorem Fenced.congr (h : Fenced t w) (hh : u.handshake = t.handshake) (hk : u.key = t.key)
    (hd : v.lastDiscovery t.key = w.lastDiscovery t.key)
    (hr : v.lastRequest t.key = w.lastRequest t.key) : Fenced u v := by
  constructor
  · intro hp
    rw [hh, hk, hd]
    exact h.discovery (by rwa [phase, hh] at hp)
  · intro hp
    rw [hh, hk, hr]
    exact h.request (by simpa only [phase, hh] using hp)

theorem Fenced.elapse (h : Fenced t w) (he : w.Elapsed t.key v) : Fenced t v :=
  h.congr rfl rfl he.lastSent_eq he.lastSent_eq

/-! ## Every step keeps the fence

A step keeps the fence that it found, or puts up a new one: `beginDiscovery`
and `beginRequest` draw the nonce, store it and send it in one go. -/

/-- `s` is a fenced state of the tunnel with key `key`. -/
def Keeps (key : InterfaceKey) (s : Tunnel × World) : Prop := s.1.key = key ∧ Fenced s.1 s.2

theorem keeps_sendDiscovery {nonce : Nonce} (hp : t.phase = .discovering)
    (hn : t.handshake.discoveryNonce = some nonce) (w : World) :
    Keeps t.key (sendDiscovery (.relayDiscovery nonce) t w) := by
  refine ⟨rfl, fun _ => ⟨nonce, hn, ?_⟩, ?_⟩
  · simp only [sendDiscovery]
    rw [World.lastDiscovery, (World.elapsed_timer _ _ _).lastSent_eq]
    exact World.lastSent_send_of_some rfl t.key w
  · intro h
    have hp' : t.handshake.phase = .discovering := hp
    simp [sendDiscovery, phase, hp'] at h

theorem keeps_beginDiscovery (t : Tunnel) (w : World) : Keeps t.key (t.beginDiscovery w) :=
  keeps_sendDiscovery (t := { t.withoutTimers with handshake := _ }) rfl rfl _

theorem keeps_sendRequest {nonce : Nonce} {family : Family} (hp : t.phase = .requesting)
    (hn : t.handshake.requestNonce = some nonce) (w : World) :
    Keeps t.key (sendRequest (.request nonce family) t w) := by
  simp only [sendRequest]
  split
  · exact keeps_beginDiscovery t _
  · refine ⟨rfl, ?_, fun _ => ⟨nonce, hn, ?_⟩⟩
    · intro h
      have hp' : t.handshake.phase = .requesting := hp
      simp [phase, hp'] at h
    · rw [World.lastRequest, (World.elapsed_timer _ _ _).lastSent_eq]
      exact World.lastSent_send_of_some rfl t.key w

/-- A request that can be made renews the fence, whatever it was before. -/
theorem keeps_beginRequest (h : t.handshake.canRequest = true) (w : World) :
    Keeps t.key (t.beginRequest w) := by
  simp only [beginRequest, Handshake.startRequest, h, if_true]
  exact keeps_sendRequest (t := { t with handshake := _ }) rfl rfl _

theorem keeps_refuse (h : Fenced t w) : Keeps t.key (t.refuse w) := by
  simp only [refuse]
  split
  · obtain ⟨hk, hf⟩ := keeps_beginDiscovery t w
    exact ⟨hk, hf.congr rfl rfl rfl rfl⟩
  · exact ⟨rfl, h.congr rfl rfl rfl rfl⟩

theorem keeps_keepAlive (h : Fenced t w) : Keeps t.key (t.keepAlive w) := by
  unfold keepAlive
  split
  · exact ⟨rfl, h⟩
  · have hv := h.elapse (World.elapsed_timer t.key w t.handshake.queryInterval)
    exact ⟨rfl, hv.congr rfl rfl rfl rfl⟩

theorem keeps_send (h : Fenced t w) (packet : Packet) : Keeps t.key (t.send packet w).2 := by
  unfold send
  split
  · exact ⟨rfl, h⟩
  split
  · exact ⟨rfl, h⟩
  split
  · exact ⟨rfl, h⟩
  rename_i report _
  cases hg : t.handshake.grant with
  | none =>
    simp only [Handshake.update, hg, Option.map_none]
    exact keeps_refuse h
  | some grant =>
    simp only [Handshake.update, hg, Option.map_some]
    -- An update is neither a discovery nor a request, so both nonces stay the latest.
    have hs : Fenced t (w.send t.key (.membershipUpdate grant.mac grant.nonce packet)).2 :=
      h.congr rfl rfl (World.lastSent_send_of_none rfl _ _) (World.lastSent_send_of_none rfl _ _)
    split
    · rename_i v heq
      rw [heq] at hs
      split
      · exact keeps_beginDiscovery t v
      · exact ⟨rfl, hs⟩
    · rename_i v heq
      rw [heq] at hs
      split
      · exact keeps_keepAlive (t := { t with stats := _ }) (hs.congr rfl rfl rfl rfl)
      · exact ⟨rfl, hs.congr rfl rfl rfl rfl⟩

theorem keeps_onAdvertisement (h : Fenced t w) (nonce : Nonce) (relay : Address) :
    Keeps t.key (t.onAdvertisement nonce relay w) := by
  simp only [onAdvertisement]
  split
  · exact ⟨rfl, h.congr rfl rfl rfl rfl⟩
  · rename_i handshake heq
    split
    · exact keeps_beginDiscovery _ _
    · -- The advertisement leaves the discovery without a nonce, but with a relay to ask.
      have hc : handshake.canRequest = true := by
        simp only [Handshake.onAdvertisement] at heq
        split at heq
        · cases heq
        split at heq
        · cases heq
        · rename_i hp _
          cases heq
          simp [Handshake.canRequest, not_not.mp hp]
      exact keeps_beginRequest (t := { t with handshake, discoveryTimer := none }) hc _

theorem keeps_tearDown (h : Fenced t w) (stale : Option Grant) :
    Keeps t.key (tearDown stale t w) := by
  unfold tearDown
  split
  · exact ⟨rfl, h⟩
  · rename_i message heq
    have hm : ∃ mac nonce gateway, message = .teardown mac nonce gateway := by
      simp only [Option.bind_eq_some_iff, Grant.teardown, Option.map_eq_some_iff] at heq
      obtain ⟨g, -, gateway, -, hg⟩ := heq
      exact ⟨_, _, _, hg.symm⟩
    obtain ⟨mac, nonce, gateway, rfl⟩ := hm
    have hs : Fenced t (w.send t.key (.teardown mac nonce gateway)).2 :=
      h.congr rfl rfl (World.lastSent_send_of_none rfl _ _) (World.lastSent_send_of_none rfl _ _)
    split
    · rename_i hv
      rw [hv] at hs
      exact ⟨rfl, hs⟩
    · rename_i hv
      rw [hv] at hs
      exact ⟨rfl, hs.congr rfl rfl rfl rfl⟩

theorem keeps_onQuery (h : Fenced t w) (grant : Grant) (packet : Packet) :
    Keeps t.key (t.onQuery grant packet w).2 := by
  have hd : Keeps t.key (t.drop, w) := ⟨rfl, h.congr rfl rfl rfl rfl⟩
  unfold onQuery
  split
  · exact hd
  split
  · exact hd
  split
  · exact hd
  · rename_i stale handshake heq
    simp only [Handshake.onQuery] at heq
    split at heq
    · cases heq
    split at heq
    · cases heq
    · rename_i hp _
      cases heq
      refine keeps_tearDown (t := { t with handshake := _, requestTimer := none, stats := _ }) ?_ _
      exact ⟨fun hp' => by simp [phase] at hp', fun _ => h.request (not_not.mp hp)⟩

theorem keeps_handle (h : Fenced t w) (b : Bytes) : Keeps t.key (t.handle b w).2 := by
  unfold handle
  split
  · exact ⟨rfl, h.congr rfl rfl rfl rfl⟩
  · exact keeps_onAdvertisement h _ _
  · exact keeps_onQuery h _ _
  · exact ⟨rfl, h.congr rfl rfl rfl rfl⟩
  · exact ⟨rfl, h.congr rfl rfl rfl rfl⟩

theorem keeps_receive (h : Fenced t w) (received : Except SocketError Bytes) :
    Keeps t.key (t.receive received w).2 := by
  unfold receive
  split
  · exact keeps_handle h _
  split
  · exact ⟨rfl, h⟩
  split
  · unfold onUnreachable
    split
    · exact keeps_beginDiscovery t w
    · exact keeps_beginDiscovery t w
    · exact ⟨rfl, h⟩
    · exact ⟨rfl, h⟩
  · exact ⟨rfl, h.congr rfl rfl rfl rfl⟩

theorem keeps_start (h : Fenced t w) : Keeps t.key (t.start w).2 := by
  simp only [start]
  split
  · exact ⟨rfl, h⟩
  split
  · exact ⟨rfl, h⟩
  split
  · exact keeps_beginDiscovery { t with running := true } w
  · exact ⟨rfl, h.congr rfl rfl rfl rfl⟩

theorem keeps_close (h : Fenced t w) : Keeps t.key (t.close, w) := by
  unfold close
  split
  · exact ⟨rfl, h⟩
  · exact ⟨rfl, fenced_of_disconnected rfl⟩

theorem keeps_onDiscoveryTimer (h : Fenced t w) : Keeps t.key (t.onDiscoveryTimer w) := by
  simp only [onDiscoveryTimer]
  split
  · exact ⟨rfl, h.congr rfl rfl rfl rfl⟩
  split
  · rename_i handshake heq
    rcases Handshake.retryDiscovery_none heq with rfl | ⟨-, rfl⟩
    · exact ⟨rfl, h.congr rfl rfl rfl rfl⟩
    · exact ⟨rfl, fenced_of_disconnected rfl⟩
  · rename_i message handshake heq
    obtain ⟨nonce, rfl, hp, hn⟩ := Handshake.retryDiscovery_some heq
    exact keeps_sendDiscovery (t := { t with discoveryTimer := none, handshake }) hp hn w

theorem keeps_onRequestTimer (h : Fenced t w) : Keeps t.key (t.onRequestTimer w) := by
  simp only [onRequestTimer]
  split
  · exact ⟨rfl, h.congr rfl rfl rfl rfl⟩
  split
  · rename_i handshake heq
    obtain rfl := Handshake.retryRequest_none heq
    exact ⟨rfl, h.congr rfl rfl rfl rfl⟩
  · exact keeps_beginDiscovery _ w
  · rename_i message handshake heq
    obtain ⟨nonce, rfl, hp, hn⟩ := Handshake.retryRequest_resend heq
    exact keeps_sendRequest (t := { t with requestTimer := none, handshake }) hp hn w

theorem keeps_onKeepaliveTimer (h : Fenced t w) : Keeps t.key (t.onKeepaliveTimer w) := by
  simp only [onKeepaliveTimer]
  split
  · exact ⟨rfl, h.congr rfl rfl rfl rfl⟩
  · rename_i hc
    have hp : t.handshake.phase = .established := by
      by_contra hp
      exact hc (.inr hp)
    exact keeps_beginRequest (t := { t with keepaliveTimer := none })
      (by simp [Handshake.canRequest, hp]) w

/-- One step, whatever it is, keeps the fence. -/
theorem keeps_step (h : Fenced t w) (input : Input) : Keeps t.key (t.step input w) := by
  cases input with
  | start => exact keeps_start h
  | send packet => exact keeps_send h packet
  | receive received => exact keeps_receive h received
  | fire alarm =>
    cases alarm with
    | discovery => exact keeps_onDiscoveryTimer h
    | request => exact keeps_onRequestTimer h
    | keepalive => exact keeps_onKeepaliveTimer h
  | close => exact keeps_close h

/-- **The fence holds in every reachable state.** -/
theorem Reachable.fenced {key : InterfaceKey} {settings : TunnelSettings}
    (h : Reachable key settings t w) : t.key = key ∧ Fenced t w := by
  induction h with
  | created w => exact ⟨rfl, fenced_of_disconnected rfl⟩
  | step input _ _ ih =>
    obtain ⟨hk, hf⟩ := keeps_step ih.2 input
    exact ⟨hk.trans ih.1, hf⟩
  | elapse _ he ih => exact ⟨ih.1, ih.2.elapse (ih.1 ▸ he)⟩

/-! ## What the fence keeps out -/

theorem onAdvertisement_eq_drop (hf : Fenced t w) {nonce : Nonce} (relay : Address)
    (h : t.phase = .discovering → w.lastDiscovery t.key ≠ some nonce) :
    t.onAdvertisement nonce relay w = (t.drop, w) := by
  have he : ∃ e, t.handshake.onAdvertisement nonce relay = .error e := by
    simp only [Handshake.onAdvertisement]
    by_cases hp : t.handshake.phase = .discovering
    · obtain ⟨n, hn, hl⟩ := hf.discovery hp
      have hne : nonce ≠ n := fun e => h hp (e ▸ hl)
      simp [hp, hn, hne]
    · simp [hp]
  obtain ⟨e, he⟩ := he
  simp only [onAdvertisement, he]

theorem onQuery_eq_drop (hf : Fenced t w) {grant : Grant} {packet : Packet}
    (h : t.phase = .requesting ∨ t.phase = .established →
      w.lastRequest t.key = some grant.nonce → ∀ query, Query.ofPacket packet = .ok query →
      query.family ≠ t.key.family) :
    t.onQuery grant packet w = (none, t.drop, w) := by
  unfold onQuery
  split
  · rfl
  rename_i query hq
  split
  · rfl
  rename_i hfam
  have he : ∃ e, t.handshake.onQuery grant (some query.queryInterval) = .error e := by
    simp only [Handshake.onQuery]
    by_cases hp : t.handshake.phase = .requesting ∨ t.handshake.phase = .established
    · obtain ⟨n, hn, hl⟩ := hf.request hp
      have hne : grant.nonce ≠ n := fun e => h hp (e ▸ hl) query hq (not_not.mp hfam)
      simp [hp, hn, hne]
    · simp [hp]
  obtain ⟨e, he⟩ := he
  rw [he]

/-- **Fencing**: whatever octets arrive, unless they are an answer that the
tunnel awaits or multicast data, they are counted as dropped and that is all:
no notice for the listener, nothing sent or connected, no timer touched. -/
theorem handle_eq_drop_of_not_awaits {key : InterfaceKey} {settings : TunnelSettings}
    (hr : Reachable key settings t w) {b : Bytes} (h : ¬ t.Awaits w b) :
    t.handle b w =
      (none, { t with stats := { t.stats with dropped := t.stats.dropped + 1 } }, w) := by
  have hf := hr.fenced.2
  simp only [Awaits, not_or] at h
  obtain ⟨hadv, hquery, hdata⟩ := h
  unfold handle
  split
  · rfl
  · rename_i nonce relay hb
    have hdrop := onAdvertisement_eq_drop hf relay fun hp hl =>
      hadv ⟨hp, nonce, relay, hb, hl⟩
    rw [hdrop]
    rfl
  · rename_i limited mac nonce packet gateway hb
    exact onQuery_eq_drop hf fun hp hl query hq hfam =>
      hquery ⟨hp, limited, mac, nonce, packet, gateway, query, hb, hl, hq, hfam⟩
  · rename_i packet hb
    exact absurd ⟨packet, hb⟩ hdata
  · rfl

/-- A gateway that has sent its discovery under nonce 7, in a world where all goes well. -/
def discovering : Tunnel × World :=
  let key : InterfaceKey := ⟨.v4 #v[192, 0, 2, 1], .ipv4⟩
  step .start { key, settings := {} } { oracle := { nonce := fun _ => 7, chance := fun _ => 0 } }

/-- An advertisement under nonce zero does not pass for one under nonce 7. -/
theorem discovering_drops_zero_nonce :
    discovering.1.phase = .discovering ∧
      discovering.1.handle (Message.relayAdvertisement 0 (.v4 #v[203, 0, 113, 9])).encode
          discovering.2 =
        (none, { discovering.1 with stats := { discoveries := 1, dropped := 1 } },
          discovering.2) := by
  have hd : Message.decode (Message.relayAdvertisement 0 (.v4 #v[203, 0, 113, 9])).encode =
      .ok (.relayAdvertisement 0 (.v4 #v[203, 0, 113, 9])) := by rfl
  refine ⟨rfl, handle_eq_drop_of_not_awaits (.step .start (.created _) trivial) ?_⟩
  rintro (⟨-, nonce, relay, hb, hl⟩ | ⟨hp, -⟩ | ⟨packet, hb⟩)
  · simp only [hd, Except.ok.injEq, Message.relayAdvertisement.injEq] at hb
    obtain ⟨rfl, -⟩ := hb
    exact absurd hl (by decide)
  · rcases hp with hp | hp <;> cases hp
  · simp [hd] at hb

end Tunnel

end MulticastTunnel
