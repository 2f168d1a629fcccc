import Mathlib.Tactic.Common
import MulticastTunnel.Proofs.Tunnel.Fencing

/-!
# The courses that a step can take

`Course` lists all that one step can do to the handshake and the timers of a
tunnel, with what it hands to the transport and which answer of the relay it
takes in. `takes_step` says that there is nothing else. What holds along every
run then follows by cases on the course, and no step is opened again.

A step that gets nowhere falls back to a discovery. Nothing of what it tried
before is left in the tunnel then, only in what was sent: that is the `Trial`.
-/

namespace MulticastTunnel

open MulticastTunnel.Membership

/-- Whether a message is one that a relay answers with. -/
def Message.isAnswer : Message → Bool
  | .relayAdvertisement .. | .membershipQuery .. => true
  | _ => false

namespace World

variable {w v : World} {key : InterfaceKey}

theorem trace_of_send {m : Message} {error : Option SocketError} (h : w.send key m = (error, v)) :
    v.trace = .sent key m error.isSome :: w.trace ∧ v.now = w.now := by
  cases h
  exact ⟨rfl, rfl⟩

theorem trace_of_connect {peer : SocketAddress} {error : Option SocketError}
    (h : w.connect key peer = (error, v)) :
    v.trace = .connected key peer error.isSome :: w.trace ∧ v.now = w.now := by
  cases h
  exact ⟨rfl, rfl⟩

end World

namespace Tunnel

/-- The answer of the relay that a step takes in: it was received, and it is
not counted as dropped. -/
def answer? (input : Input) (t : Tunnel) (w : World) : Option Message :=
  match input with
  | .receive (.ok b) =>
    if (t.handle b w).2.1.stats.dropped = t.stats.dropped then
      (Message.decode b).toOption.filter (·.isAnswer)
    else none
  | _ => none

/-- What a step tried before it fell back to a discovery: which answer it took
in, and what it did with the transport in vain, the latest first. -/
inductive Trial (t : Tunnel) : Option Message → List Event → Prop
  | nothing : Trial t none []
  | report {grant : Grant} {packet : Packet} : t.handshake.grant = some grant →
      Trial t none [.sent t.key (.membershipUpdate grant.mac grant.nonce packet) true]
  | turn {nonce : Nonce} {relay : Address} {h : Handshake} :
      t.handshake.onAdvertisement nonce relay = .ok h →
      Trial t (some (.relayAdvertisement nonce relay))
        [.connected t.key ⟨relay, t.settings.relayPort, 0, 0⟩ true]
  | turned {nonce request : Nonce} {relay : Address} {h : Handshake} :
      t.handshake.onAdvertisement nonce relay = .ok h →
      Trial t (some (.relayAdvertisement nonce relay))
        [.sent t.key (.request request t.handshake.family) true,
          .connected t.key ⟨relay, t.settings.relayPort, 0, 0⟩ false]
  | request {nonce : Nonce} : t.phase = .requesting ∨ t.phase = .established →
      Trial t none [.sent t.key (.request nonce t.handshake.family) true]

/-- What a step can do: the answer that it takes in, what it does with the
transport, the latest first, and the tunnel that it leaves. -/
inductive Course (input : Input) (t : Tunnel) (w : World) :
    Option Message → List Event → Tunnel → Prop
  | rest (stats : TunnelStats) (running : Bool) : (∀ alarm, input ≠ .fire alarm) →
      Course input t w none [] { t with stats, running }
  /-- Discovers a relay under a fresh nonce. -/
  | seek {answer : Option Message} {trial : List Event} (nonce : Nonce) (unconnected failed : Bool)
      (serial : Nat) (stats : TunnelStats) (running : Bool) : input ≠ .fire .discovery →
      (t.closed = true → t.phase ≠ .disconnected) → Trial t answer trial →
      Course input t w answer
        (.sent t.key (.relayDiscovery nonce) failed ::
          .connected t.key ⟨t.key.discoveryAddress, t.settings.relayPort, 0, 0⟩ unconnected ::
            trial)
        { t with
          handshake := (t.handshake.startDiscovery nonce).2
          discoveryTimer := some ⟨w.now + t.settings.discoveryInterval, serial⟩
          requestTimer := none
          keepaliveTimer := none
          stats
          running }
  | report {grant : Grant} (packet : Packet) (failed : Bool) (keepaliveTimer : Option Timer)
      (stats : TunnelStats) : input = .send packet → t.handshake.grant = some grant →
      Course input t w none [.sent t.key (.membershipUpdate grant.mac grant.nonce packet) failed]
        { t with keepaliveTimer, stats }
  /-- Turns to the relay of an advertisement. -/
  | turn {nonce : Nonce} {relay : Address} {h : Handshake} (request : Nonce) (failed : Bool)
      (serial : Nat) (stats : TunnelStats) :
      t.handshake.onAdvertisement nonce relay = .ok h →
      Course input t w (some (.relayAdvertisement nonce relay))
        [.sent t.key (.request request t.handshake.family) failed,
          .connected t.key ⟨relay, t.settings.relayPort, 0, 0⟩ false]
        { t with
          handshake := (h.startRequest request).2
          discoveryTimer := none
          requestTimer := some ⟨w.now + t.settings.requestInterval, serial⟩
          stats }
  /-- Takes the grant of a query; only a teardown may be sent. -/
  | establish {limited : Bool} {mac : Mac} {nonce : Nonce} {packet : Packet}
      {gateway : Option SocketAddress} {interval : Option Nat} {stale : Option Grant}
      {h : Handshake} (events : List Event) (stats : TunnelStats) :
      t.handshake.onQuery ⟨mac, nonce, gateway, limited⟩ interval = .ok (stale, h) →
      (∀ e ∈ events, ∃ grant message failed, stale = some grant ∧ grant.teardown = some message ∧
        e = .sent t.key message failed) →
      Course input t w (some (.membershipQuery limited mac nonce packet gateway)) events
        { t with handshake := h, requestTimer := none, stats }
  /-- Requests a new query while the grant of the last one is held. -/
  | renew (nonce : Nonce) (failed : Bool) (serial : Nat) (stats : TunnelStats) :
      input = .fire .keepalive → t.phase = .established →
      Course input t w none [.sent t.key (.request nonce t.handshake.family) failed]
        { t with
          handshake := (t.handshake.startRequest nonce).2
          requestTimer := some ⟨w.now + t.settings.requestInterval, serial⟩
          keepaliveTimer := none
          stats }
  | repeatRequest {nonce : Nonce} {h : Handshake} (failed : Bool) (serial : Nat)
      (stats : TunnelStats) : input = .fire .request →
      t.handshake.retryRequest t.settings.requestLimit =
        (some (.resend (.request nonce t.handshake.family)), h) →
      Course input t w none [.sent t.key (.request nonce t.handshake.family) failed]
        { t with
          handshake := h
          requestTimer := some ⟨w.now + t.settings.requestInterval, serial⟩
          stats }
  | repeatDiscovery {nonce : Nonce} {h : Handshake} (failed : Bool) (serial : Nat)
      (stats : TunnelStats) : input = .fire .discovery →
      t.handshake.retryDiscovery t.settings.discoveryLimit = (some (.relayDiscovery nonce), h) →
      Course input t w none [.sent t.key (.relayDiscovery nonce) failed]
        { t with
          handshake := h
          discoveryTimer := some ⟨w.now + t.settings.discoveryInterval, serial⟩
          stats }
  | giveUp {h : Handshake} : input = .fire .discovery →
      t.handshake.retryDiscovery t.settings.discoveryLimit = (none, h) →
      Course input t w none [] { t with handshake := h, discoveryTimer := none }
  /-- A timer ran out when there was nothing to be done any more. -/
  | lapse (alarm : Alarm) : input = .fire alarm →
      (alarm = .discovery → t.closed = true) →
      (alarm = .request →
        t.closed = true ∨ ∃ h, t.handshake.retryRequest t.settings.requestLimit = (none, h)) →
      Course input t w none []
        { t with
          discoveryTimer := if alarm = .discovery then none else t.discoveryTimer
          requestTimer := if alarm = .request then none else t.requestTimer
          keepaliveTimer := if alarm = .keepalive then none else t.keepaliveTimer }
  | close : input = .close → Course input t w none [] t.close

variable {input : Input} {t u : Tunnel} {w v : World}

/-- No course changes whose tunnel it is. -/
theorem Course.configured {answer : Option Message} {events : List Event}
    (hc : Course input t w answer events u) :
    u.key = t.key ∧ u.settings = t.settings := by
  cases hc with
  | close _ =>
    unfold Tunnel.close
    split <;> exact ⟨rfl, rfl⟩
  | _ => exact ⟨rfl, rfl⟩

/-! ## Handing over to the transport -/

theorem beginDiscovery_eq (t : Tunnel) (w : World) :
    ∃ nonce unconnected failed serial stats v,
      t.beginDiscovery w =
        ({ t with
            handshake := (t.handshake.startDiscovery nonce).2
            discoveryTimer := some ⟨w.now + t.settings.discoveryInterval, serial⟩
            requestTimer := none
            keepaliveTimer := none
            stats }, v) ∧
      v.trace = .sent t.key (.relayDiscovery nonce) failed ::
        .connected t.key ⟨t.key.discoveryAddress, t.settings.relayPort, 0, 0⟩ unconnected ::
          w.trace :=
  ⟨_, _, _, _, _, _, rfl, rfl⟩

theorem isSome_of_any_isUnreachable {error : Option SocketError}
    (h : error.any (·.isUnreachable) = true) : error.isSome = true := by
  cases error with
  | none => cases h
  | some e => rfl

/-- A request that does not reach the relay ends in a discovery; after any other
the tunnel waits for the answer. -/
theorem sendRequest_cases (message : Message) (t : Tunnel) (w : World) :
    (∃ v, sendRequest message t w = t.beginDiscovery v ∧ v.now = w.now ∧
      v.trace = .sent t.key message true :: w.trace) ∨
    ∃ failed serial stats v,
      sendRequest message t w =
        ({ t with
            requestTimer := some ⟨w.now + t.settings.requestInterval, serial⟩
            stats }, v) ∧
      v.trace = .sent t.key message failed :: w.trace := by
  simp only [sendRequest]
  split
  · rename_i herror
    refine .inl ⟨_, rfl, rfl, ?_⟩
    rw [← isSome_of_any_isUnreachable herror]
    rfl
  · exact .inr ⟨_, _, _, _, rfl, rfl⟩

/-- The same owner, relay port and intervals, and a handshake that forgets to
the same one: discoveries of both cannot be told apart. -/
structure Alike (t u : Tunnel) : Prop where
  key : u.key = t.key
  settings : u.settings = t.settings
  closed : u.closed = t.closed
  reset : u.handshake.reset = t.handshake.reset

/-- One step takes the tunnel and the world to `s`. -/
def Takes (input : Input) (t : Tunnel) (w : World) (answer : Option Message)
    (s : Tunnel × World) : Prop :=
  ∃ events, s.2.trace = events ++ w.trace ∧ Course input t w answer events s.1

theorem Takes.rest (hin : ∀ alarm, input ≠ .fire alarm) (t : Tunnel) (w : World)
    (stats : TunnelStats) (running : Bool) : Takes input t w none ({ t with stats, running }, w) :=
  ⟨[], rfl, .rest stats running hin⟩

/-- A step that falls back to a discovery takes the course of one, whatever it
has done to the handshake, the timers and the counts before. -/
theorem takes_beginDiscovery {answer : Option Message} {trial : List Event}
    (hin : input ≠ .fire .discovery) (hopen : t.closed = true → t.phase ≠ .disconnected)
    (htrial : Trial t answer trial) (ha : Alike t u) (hnow : v.now = w.now)
    (hv : v.trace = trial ++ w.trace) (stats : TunnelStats) :
    Takes input t w answer ({ (u.beginDiscovery v).1 with stats }, (u.beginDiscovery v).2) := by
  obtain ⟨hk, hs, hc, hr⟩ := ha
  obtain ⟨nonce, unconnected, failed, serial, stats', v', heq, htrace⟩ := beginDiscovery_eq u v
  have hh : (u.handshake.startDiscovery nonce).2 = (t.handshake.startDiscovery nonce).2 := by
    simp only [Handshake.startDiscovery, hr]
  rw [heq]
  refine ⟨.sent t.key (.relayDiscovery nonce) failed ::
    .connected t.key ⟨t.key.discoveryAddress, t.settings.relayPort, 0, 0⟩ unconnected :: trial,
    ?_, ?_⟩
  · rw [htrace, hv, hk, hs]
    rfl
  · have := Course.seek (w := w) nonce unconnected failed serial stats u.running hin hopen
      htrial
    simpa only [hh, hk, hs, hc, hnow] using this

/-! ## Sending reports -/

theorem takes_refuse (packet : Packet) (hopen : ¬ t.closed = true) (w : World) :
    Takes (.send packet) t w none (t.refuse w) := by
  simp only [refuse]
  split
  · exact takes_beginDiscovery (u := t) (by simp) (fun hc => absurd hc hopen) .nothing
      ⟨rfl, rfl, rfl, rfl⟩ rfl rfl _
  · exact .rest (by simp) t w _ t.running

/-- Keeping a session alive changes no other timer, and sends nothing. -/
theorem keepAlive_eq (t : Tunnel) (w : World) :
    ∃ timer v, t.keepAlive w = ({ t with keepaliveTimer := timer }, v) ∧ v.trace = w.trace := by
  unfold keepAlive
  split
  · exact ⟨t.keepaliveTimer, w, rfl, rfl⟩
  · exact ⟨_, _, rfl, rfl⟩

theorem takes_send (packet : Packet) (t : Tunnel) (w : World) :
    Takes (.send packet) t w none (t.send packet w).2 := by
  unfold send
  split
  · exact .rest (by simp) t w t.stats t.running
  rename_i hopen
  split
  · exact .rest (by simp) t w t.stats t.running
  split
  · exact .rest (by simp) t w t.stats t.running
  rename_i report _
  cases hg : t.handshake.grant with
  | none =>
    simp only [Handshake.update, hg, Option.map_none]
    exact takes_refuse packet hopen w
  | some grant =>
    simp only [Handshake.update, hg, Option.map_some]
    split
    · rename_i e v hsend
      obtain ⟨hv, hnow⟩ := World.trace_of_send hsend
      split
      · exact takes_beginDiscovery (u := t) (by simp) (fun hc => absurd hc hopen) (.report hg)
          ⟨rfl, rfl, rfl, rfl⟩ hnow hv _
      · exact ⟨_, hv, .report packet true t.keepaliveTimer t.stats rfl hg⟩
    · rename_i v hsend
      obtain ⟨hv, -⟩ := World.trace_of_send hsend
      split
      · obtain ⟨timer, v', heq, hv'⟩ := keepAlive_eq { t with stats := _ } v
        rw [heq]
        exact ⟨_, hv'.trans hv, .report packet false timer _ rfl hg⟩
      · exact ⟨_, hv, .report packet false t.keepaliveTimer _ rfl hg⟩

/-! ## Requests -/

/-- A step that ends with a request waits for the answer, or falls back to a
discovery. -/
theorem takes_sendRequest {answer : Option Message} (before : List Event) {nonce : Nonce}
    (hin : input ≠ .fire .discovery) (hopen : t.closed = true → t.phase ≠ .disconnected)
    (ha : Alike t u) (hnow : v.now = w.now) (hv : v.trace = before ++ w.trace)
    (htrial : Trial t answer (.sent t.key (.request nonce t.handshake.family) true :: before))
    (hcourse : ∀ failed serial stats,
      Course input t w answer (.sent t.key (.request nonce t.handshake.family) failed :: before)
        { u with
          requestTimer := some ⟨w.now + t.settings.requestInterval, serial⟩
          stats }) :
    Takes input t w answer (sendRequest (.request nonce t.handshake.family) u v) := by
  rcases sendRequest_cases (.request nonce t.handshake.family) u v with
    ⟨v', heq, hnow', hv'⟩ | ⟨failed, serial, stats, v', heq, hv'⟩
  · rw [heq]
    refine takes_beginDiscovery hin hopen htrial ha (hnow'.trans hnow) ?_ _
    rw [hv', hv, ha.key]
    rfl
  · have hc := hcourse failed serial stats
    rw [← hnow, ← ha.settings] at hc
    rw [heq]
    refine ⟨_, ?_, hc⟩
    rw [hv', hv, ha.key]
    rfl

theorem beginRequest_eq (h : t.handshake.canRequest = true) (w : World) :
    ∃ nonce v,
      t.beginRequest w = sendRequest (.request nonce t.handshake.family)
        { t with handshake := (t.handshake.startRequest nonce).2 } v ∧
      v.trace = w.trace ∧ v.now = w.now := by
  simp only [beginRequest, Handshake.startRequest, h, if_true]
  exact ⟨_, _, rfl, rfl, rfl⟩

theorem takes_onDiscoveryTimer (t : Tunnel) (w : World) :
    Takes (.fire .discovery) t w none (t.onDiscoveryTimer w) := by
  simp only [onDiscoveryTimer]
  split
  · rename_i hc
    exact ⟨[], rfl, .lapse .discovery rfl (fun _ => hc) (fun h => by cases h)⟩
  split
  · rename_i h heq
    exact ⟨[], rfl, .giveUp rfl heq⟩
  · rename_i message h heq
    obtain ⟨nonce, rfl, -, -⟩ := Handshake.retryDiscovery_some heq
    exact ⟨_, rfl, .repeatDiscovery _ _ _ rfl heq⟩

theorem takes_onRequestTimer (t : Tunnel) (w : World) :
    Takes (.fire .request) t w none (t.onRequestTimer w) := by
  simp only [onRequestTimer]
  split
  · rename_i hc
    exact ⟨[], rfl, .lapse .request rfl (fun h => by cases h) (fun _ => .inl hc)⟩
  rename_i hopen
  split
  · rename_i h heq
    obtain rfl := Handshake.retryRequest_none heq
    exact ⟨[], rfl, .lapse .request rfl (fun h => by cases h) (fun _ => .inr ⟨_, heq⟩)⟩
  · rename_i h heq
    obtain rfl := Handshake.retryRequest_exhausted heq
    exact takes_beginDiscovery (by simp) (fun hc => absurd hc hopen) .nothing
      ⟨rfl, rfl, rfl, rfl⟩ rfl rfl _
  · rename_i message h heq
    obtain ⟨nonce, rfl, hp, -⟩ := Handshake.retryRequest_resend heq
    have hh := Handshake.retryRequest_resend_eq heq
    exact takes_sendRequest (u := { t with requestTimer := none, handshake := h }) [] (by simp)
      (fun hc => absurd hc hopen) ⟨rfl, rfl, rfl, by rw [hh]; rfl⟩ rfl rfl
      (.request (.inl (by rwa [hh] at hp)))
      fun failed serial stats => .repeatRequest failed serial stats rfl heq

theorem takes_onKeepaliveTimer (t : Tunnel) (w : World) :
    Takes (.fire .keepalive) t w none (t.onKeepaliveTimer w) := by
  simp only [onKeepaliveTimer]
  split
  · exact ⟨[], rfl, .lapse .keepalive rfl (fun h => by cases h) (fun h => by cases h)⟩
  · rename_i hc
    have hp : t.handshake.phase = .established := by
      by_contra hp
      exact hc (.inr hp)
    obtain ⟨nonce, v, heq, hv, hnow⟩ := beginRequest_eq (t := { t with keepaliveTimer := none })
      (by simp [Handshake.canRequest, hp]) w
    rw [heq]
    exact takes_sendRequest [] (by simp) (fun _ => by simp [phase, hp])
      ⟨rfl, rfl, rfl, Handshake.reset_startRequest _ nonce⟩ hnow hv
      (.request (.inr hp)) fun failed serial stats => .renew nonce failed serial stats rfl hp

/-! ## Messages of the relay -/

theorem dropped_sendRequest (message : Message) (t : Tunnel) (w : World) :
    (sendRequest message t w).1.stats.dropped = t.stats.dropped := by
  simp only [sendRequest]
  split <;> rfl

theorem dropped_drop (t : Tunnel) : t.drop.stats.dropped ≠ t.stats.dropped :=
  Nat.succ_ne_self _

theorem takes_onAdvertisement (received : Except SocketError Bytes) (nonce : Nonce)
    (relay : Address) (t : Tunnel) (w : World) :
    t.onAdvertisement nonce relay w = (t.drop, w) ∨
      Takes (.receive received) t w (some (.relayAdvertisement nonce relay))
          (t.onAdvertisement nonce relay w) ∧
        (t.onAdvertisement nonce relay w).1.stats.dropped = t.stats.dropped := by
  simp only [onAdvertisement]
  split
  · exact .inl rfl
  right
  rename_i h heq
  obtain ⟨hp, -, hh⟩ := Handshake.onAdvertisement_eq_ok.mp heq
  have hr : h.reset = t.handshake.reset := by rw [hh]; rfl
  have hf : h.family = t.handshake.family := by rw [hh]
  have hcan : h.canRequest = true := by rw [hh]; simp [Handshake.canRequest, hp]
  have hopen : t.closed = true → t.phase ≠ .disconnected := fun _ => by simp [phase, hp]
  split
  · rename_i e v hconnect
    obtain ⟨hv, hnow⟩ := World.trace_of_connect hconnect
    exact ⟨takes_beginDiscovery (u := { t with handshake := h, discoveryTimer := none }) (by simp)
      hopen (.turn heq) ⟨rfl, rfl, rfl, hr⟩ hnow hv _, rfl⟩
  · rename_i v hconnect
    obtain ⟨hv, hnow⟩ := World.trace_of_connect hconnect
    obtain ⟨request, v', heq', hv', hnow'⟩ :=
      beginRequest_eq (t := { t with handshake := h, discoveryTimer := none }) hcan v
    rw [heq', dropped_sendRequest]
    refine ⟨?_, rfl⟩
    simp only [hf]
    exact takes_sendRequest _ (by simp) hopen
      ⟨rfl, rfl, rfl, (Handshake.reset_startRequest h request).trans hr⟩ (hnow'.trans hnow)
      (hv'.trans hv) (.turned heq) fun failed serial stats => .turn request failed serial stats heq

/-- At most one teardown is sent, that of a stale grant. -/
theorem tearDown_cases (stale : Option Grant) (t : Tunnel) (w : World) :
    tearDown stale t w = (t, w) ∨
    ∃ grant message stats, stale = some grant ∧ grant.teardown = some message ∧
      stats.dropped = t.stats.dropped ∧
      tearDown stale t w = ({ t with stats }, (w.send t.key message).2) := by
  unfold tearDown
  split
  · exact .inl rfl
  · rename_i message heq
    obtain ⟨grant, hs, hg⟩ := Option.bind_eq_some_iff.mp heq
    right
    split
    · rename_i e v hsend
      exact ⟨grant, message, t.stats, hs, hg, rfl, by rw [hsend]⟩
    · rename_i v hsend
      refine ⟨grant, message, { t.stats with teardowns := t.stats.teardowns + 1 }, hs, hg, rfl, ?_⟩
      rw [hsend]

/-- A teardown changes the counts alone. -/
theorem tearDown_eq (stale : Option Grant) (t : Tunnel) (w : World) :
    ∃ stats events v, tearDown stale t w = ({ t with stats }, v) ∧
      stats.dropped = t.stats.dropped ∧ v.trace = events ++ w.trace ∧
      ∀ e ∈ events, ∃ grant message failed, stale = some grant ∧ grant.teardown = some message ∧
        e = .sent t.key message failed := by
  rcases tearDown_cases stale t w with heq | ⟨grant, message, stats, hs, hg, hdropped, heq⟩
  · exact ⟨t.stats, [], w, heq, rfl, rfl, by simp⟩
  · refine ⟨stats, [_], _, heq, hdropped, rfl, fun e he => ?_⟩
    exact ⟨grant, message, _, hs, hg, List.mem_singleton.mp he⟩

theorem takes_onQuery (input : Input) (limited : Bool) (mac : Mac) (nonce : Nonce)
    (packet : Packet) (gateway : Option SocketAddress) (t : Tunnel) (w : World) :
    (t.onQuery ⟨mac, nonce, gateway, limited⟩ packet w).2 = (t.drop, w) ∨
      Takes input t w (some (.membershipQuery limited mac nonce packet gateway))
          (t.onQuery ⟨mac, nonce, gateway, limited⟩ packet w).2 ∧
        (t.onQuery ⟨mac, nonce, gateway, limited⟩ packet w).2.1.stats.dropped =
          t.stats.dropped := by
  simp only [onQuery]
  split
  · exact .inl rfl
  split
  · exact .inl rfl
  split
  · exact .inl rfl
  · right
    rename_i stale h heq
    obtain ⟨stats, events, v, htear, hdropped, hv, hev⟩ := tearDown_eq stale
      { t with
        handshake := h
        requestTimer := none
        stats := { t.stats with queries := t.stats.queries + 1 } } w
    rw [htear]
    exact ⟨⟨events, hv, .establish events stats heq hev⟩, hdropped⟩

theorem takes_handle (b : Bytes) (t : Tunnel) (w : World) :
    Takes (.receive (.ok b)) t w (answer? (.receive (.ok b)) t w) (t.handle b w).2 := by
  have hdrop : ∀ s : Tunnel × World, s = (t.drop, w) → ∀ o : Option Message,
      Takes (.receive (.ok b)) t w (if s.1.stats.dropped = t.stats.dropped then o else none) s := by
    rintro s rfl o
    rw [if_neg (dropped_drop t)]
    exact .rest (by simp) t w _ t.running
  cases hm : Message.decode b with
  | error e =>
    simp only [answer?, handle, hm]
    exact hdrop _ rfl _
  | ok message =>
    cases message with
    | relayAdvertisement nonce relay =>
      simp only [answer?, handle, hm]
      rcases takes_onAdvertisement (.ok b) nonce relay t w with h | ⟨h, hsame⟩
      · exact hdrop _ h _
      · rw [if_pos hsame]
        exact h
    | membershipQuery limited mac nonce packet gateway =>
      simp only [answer?, handle, hm]
      rcases takes_onQuery (.receive (.ok b)) limited mac nonce packet gateway t w with
        h | ⟨h, hsame⟩
      · exact hdrop _ h _
      · rw [if_pos hsame]
        exact h
    | multicastData packet =>
      simp only [answer?, handle, hm, if_true]
      exact .rest (by simp) t w _ t.running
    | _ =>
      simp only [answer?, handle, hm]
      exact hdrop _ rfl _

theorem takes_receive (received : Except SocketError Bytes) (t : Tunnel) (w : World) :
    Takes (.receive received) t w (answer? (.receive received) t w) (t.receive received w).2 := by
  cases received with
  | ok b => exact takes_handle b t w
  | error e =>
    simp only [receive, answer?]
    split
    · exact .rest (by simp) t w t.stats t.running
    split
    · unfold onUnreachable
      split
      · rename_i hp
        exact takes_beginDiscovery (u := t) (by simp) (fun _ => by simp [hp]) .nothing
          ⟨rfl, rfl, rfl, rfl⟩ rfl rfl _
      · rename_i hp
        exact takes_beginDiscovery (u := t) (by simp) (fun _ => by simp [hp]) .nothing
          ⟨rfl, rfl, rfl, rfl⟩ rfl rfl _
      · exact .rest (by simp) t w t.stats t.running
      · exact .rest (by simp) t w t.stats t.running
    · exact .rest (by simp) t w t.stats false

theorem takes_start (t : Tunnel) (w : World) : Takes .start t w none (t.start w).2 := by
  simp only [start]
  split
  · exact .rest (by simp) t w t.stats t.running
  rename_i hopen
  split
  · exact .rest (by simp) t w t.stats t.running
  split
  · have hin : Input.start ≠ .fire .discovery := by simp
    exact takes_beginDiscovery (t := t) (u := { t with running := true }) hin
      (fun hc => absurd hc hopen) .nothing ⟨rfl, rfl, rfl, rfl⟩ rfl rfl _
  · exact .rest (by simp) t w t.stats true

/-- **Every step takes one of the courses**, and takes in the answer that it
does not count as dropped. -/
theorem takes_step (input : Input) (t : Tunnel) (w : World) :
    Takes input t w (answer? input t w) (t.step input w) := by
  cases input with
  | start => exact takes_start t w
  | send packet => exact takes_send packet t w
  | receive received => exact takes_receive received t w
  | fire alarm =>
    cases alarm with
    | discovery => exact takes_onDiscoveryTimer t w
    | request => exact takes_onRequestTimer t w
    | keepalive => exact takes_onKeepaliveTimer t w
  | close => exact ⟨[], rfl, .close rfl⟩

end Tunnel

end MulticastTunnel
