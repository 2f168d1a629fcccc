import MulticastTunnel.Proofs.Tunnel.History

/-!
# To whom a tunnel talks

A transport sends to the peer that it was turned to last, as far as it did turn. A
`Dialogue` tells a run together with all that passed between the tunnel and its transport,
and with the answers that were accepted. Requests, updates and teardowns are sent only while
the transport faces the relay of the last accepted advertisement, for a tunnel that cannot
turn to a relay does not ask it.

A discovery is another matter. The transport is turned to the discovery address before the
first one, but the discovery is sent, and repeated, whether or not it turned. So the peer is
the discovery address only if it did.
-/

namespace MulticastTunnel

open MulticastTunnel.Membership

namespace Tunnel

/-! ## Dialogues -/

/-- What passes between a tunnel and the outside. -/
inductive Exchange
  /-- An answer was accepted. -/
  | heard (answer : Message)
  /-- The transport was to turn to a peer. -/
  | turned (peer : SocketAddress) (failed : Bool)
  /-- A message was handed to the transport. -/
  | said (message : Message)
deriving DecidableEq

namespace Exchange

def ofEvent? (key : InterfaceKey) : Event → Option Exchange
  | .connected k peer failed => if k = key then some (.turned peer failed) else none
  | .sent k message _ => if k = key then some (.said message) else none
  | _ => none

/-- The exchanges of a step, the latest first: an answer is accepted before anything is
done about it. -/
def ofStep (key : InterfaceKey) (events : List Event) (answer : Option Message) :
    List Exchange :=
  events.filterMap (ofEvent? key) ++ (answer.map heard).toList

section ofStep

variable (key : InterfaceKey) (events : List Event) (answer : Option Message)

@[simp] theorem ofStep_nil : ofStep key [] answer = (answer.map heard).toList := rfl

@[simp] theorem ofStep_sent (m : Message) (failed : Bool) :
    ofStep key (.sent key m failed :: events) answer = .said m :: ofStep key events answer := by
  simp [ofStep, ofEvent?]

@[simp] theorem ofStep_connected (peer : SocketAddress) (failed : Bool) :
    ofStep key (.connected key peer failed :: events) answer =
      .turned peer failed :: ofStep key events answer := by
  simp [ofStep, ofEvent?]

end ofStep

def turn? : Exchange → Option (SocketAddress × Bool)
  | turned peer failed => some (peer, failed)
  | _ => none

/-- The peer that the transport did turn to. -/
def peer? : Exchange → Option SocketAddress
  | turned peer false => some peer
  | _ => none

/-- The relay of an accepted advertisement. -/
def relay? : Exchange → Option Address
  | heard (.relayAdvertisement _ relay) => some relay
  | _ => none

end Exchange

/-- The exchanges of a step, the latest first. -/
def exchanges (input : Input) (t : Tunnel) (w : World) : List Exchange :=
  Exchange.ofStep t.key (w.eventsSince (t.step input w).2) (answer? input t w)

/-- The world `v` is a later state of `w` in which nobody touched the transport of `key`. -/
def Untouched (key : InterfaceKey) (w v : World) : Prop :=
  ∃ others : List Event, v.trace = others ++ w.trace ∧
    ∀ e ∈ others, Exchange.ofEvent? key e = none

/-- A run of a tunnel with its exchanges, the latest first. -/
inductive Dialogue (key : InterfaceKey) (settings : TunnelSettings) :
    List Exchange → Tunnel → World → Prop
  | created (w : World) : Dialogue key settings [] { key, settings } w
  | step {log : List Exchange} {t : Tunnel} {w : World} (input : Input) :
      Dialogue key settings log t w → input.Possible t →
      Dialogue key settings (t.exchanges input w ++ log) (t.step input w).1 (t.step input w).2
  | elapse {log : List Exchange} {t : Tunnel} {w v : World} :
      Dialogue key settings log t w → Untouched key w v → Dialogue key settings log t v

/-- The peer that the transport was to turn to last, and whether it failed to. -/
def lastTurn? (log : List Exchange) : Option (SocketAddress × Bool) :=
  log.findSome? Exchange.turn?

/-- The peer that the transport turned to last. -/
def peer? (log : List Exchange) : Option SocketAddress := log.findSome? Exchange.peer?

/-- The relay of the last accepted advertisement. -/
def relay? (log : List Exchange) : Option Address := log.findSome? Exchange.relay?

/-! ## The right peer -/

/-- The peer of discoveries. -/
def discoveryPeer (key : InterfaceKey) (settings : TunnelSettings) : SocketAddress :=
  ⟨key.discoveryAddress, settings.relayPort, 0, 0⟩

/-- The transport faces the relay that answered last. -/
def FacesRelay (settings : TunnelSettings) (log : List Exchange) : Prop :=
  ∃ relay, relay? log = some relay ∧ peer? log = some ⟨relay, settings.relayPort, 0, 0⟩

/-- The transport was turned to the discovery address last, which may have failed. If it did
not, it faces that address. -/
def SeeksRelay (key : InterfaceKey) (settings : TunnelSettings) (log : List Exchange) : Prop :=
  ∃ failed, lastTurn? log = some (discoveryPeer key settings, failed) ∧
    (failed = false → peer? log = some (discoveryPeer key settings))

/-- The message goes where it belongs. Messages of a relay belong nowhere. -/
def Addressed (key : InterfaceKey) (settings : TunnelSettings) (before : List Exchange) :
    Message → Prop
  | .relayDiscovery _ => SeeksRelay key settings before
  | .request .. | .membershipUpdate .. | .teardown .. => FacesRelay settings before
  | _ => False

/-- Every message in the log went where it belonged then. -/
def AllAddressed (key : InterfaceKey) (settings : TunnelSettings) (log : List Exchange) : Prop :=
  ∀ after message before, log = after ++ .said message :: before →
    Addressed key settings before message

variable {key : InterfaceKey} {settings : TunnelSettings} {t u : Tunnel} {w : World}
  {input : Input} {answer : Option Message} {events : List Event} {log : List Exchange}

theorem allAddressed_nil : AllAddressed key settings [] := by
  intro after message before h
  simp at h

theorem AllAddressed.cons (h : AllAddressed key settings log) {x : Exchange}
    (hx : ∀ m, x = .said m → Addressed key settings log m) :
    AllAddressed key settings (x :: log) := by
  intro after message before hlog
  cases after with
  | nil =>
    obtain ⟨hsaid, rfl⟩ := List.cons.inj hlog
    exact hx message hsaid
  | cons y after => exact h after message before (List.cons.inj hlog).2

theorem AllAddressed.said (h : AllAddressed key settings log) {m : Message}
    (hm : Addressed key settings log m) : AllAddressed key settings (.said m :: log) := by
  apply h.cons
  intro m' he
  obtain rfl := Exchange.said.inj he
  exact hm

/-- A request to the relay that just answered. -/
theorem AllAddressed.turn (h : AllAddressed key settings log) (nonce request : Nonce)
    (relay : Address) (family : Family) :
    AllAddressed key settings
      (.said (.request request family) :: .turned ⟨relay, settings.relayPort, 0, 0⟩ false ::
        .heard (.relayAdvertisement nonce relay) :: log) := by
  apply AllAddressed.said
  · exact (h.cons (by simp)).cons (by simp)
  · exact ⟨relay, rfl, rfl⟩

/-- What a tunnel knows of the peer that its transport faces. -/
structure Facing (log : List Exchange) (t : Tunnel) : Prop where
  addressed : AllAddressed t.key t.settings log
  discovering : t.phase = .discovering → SeeksRelay t.key t.settings log
  related : t.phase = .requesting ∨ t.phase = .established ∨ t.handshake.grant.isSome = true →
    FacesRelay t.settings log

/-- A tunnel without a relay may face anybody. -/
theorem facing_of_disconnected (h : AllAddressed t.key t.settings log)
    (hp : t.phase = .disconnected) (hg : t.handshake.grant = none) : Facing log t where
  addressed := h
  discovering h := by simp [hp] at h
  related h := by simp [hp, hg] at h

/-- A tunnel that talks to its relay faces it. -/
theorem facing_of_facesRelay (h : AllAddressed t.key t.settings log)
    (hp : t.phase ≠ .discovering) (hf : FacesRelay t.settings log) : Facing log t where
  addressed := h
  discovering h := absurd h hp
  related _ := hf

/-- Whatever was tried before a discovery went where it belonged. -/
theorem Facing.trial (h : Facing log t) (ht : Trial t answer events) :
    AllAddressed t.key t.settings (Exchange.ofStep t.key events answer ++ log) := by
  cases ht with
  | nothing => exact h.addressed
  | report hg =>
    rw [Exchange.ofStep_sent]
    exact h.addressed.said (h.related (.inr (.inr (by simp [hg]))))
  | turn hadv =>
    rw [Exchange.ofStep_connected]
    exact (h.addressed.cons (by simp)).cons (by simp)
  | turned hadv =>
    rw [Exchange.ofStep_sent, Exchange.ofStep_connected]
    exact h.addressed.turn _ _ _ _
  | request hp =>
    rw [Exchange.ofStep_sent]
    exact h.addressed.said (h.related (hp.imp_right .inl))

/-- A request that is repeated or renewed goes to the relay that is faced. -/
theorem Facing.request (h : Facing log t) (hp : t.phase = .requesting ∨ t.phase = .established)
    (nonce : Nonce) (hk : u.key = t.key) (hs : u.settings = t.settings)
    (hu : u.phase = .requesting) :
    Facing (.said (.request nonce t.handshake.family) :: log) u := by
  have hf : FacesRelay t.settings log := h.related (hp.imp_right .inl)
  apply facing_of_facesRelay
  · rw [hk, hs]
    exact h.addressed.said hf
  · rw [hu]
    exact Phase.noConfusion
  · rw [hs]
    exact hf

/-- Only teardowns go out when a query is accepted, to the relay that is faced. -/
theorem Facing.establish (h : Facing log t) {stale : Option Grant}
    (hp : t.phase = .requesting ∨ t.phase = .established) (query : Message)
    (hquery : (Exchange.heard query).relay? = none)
    (he : ∀ e ∈ events, ∃ grant message failed, stale = some grant ∧
      grant.teardown = some message ∧ e = .sent t.key message failed) :
    AllAddressed t.key t.settings (Exchange.ofStep t.key events (some query) ++ log) ∧
      FacesRelay t.settings (Exchange.ofStep t.key events (some query) ++ log) := by
  induction events with
  | nil =>
    obtain ⟨relay, hr, hpeer⟩ := h.related (hp.imp_right .inl)
    refine ⟨h.addressed.cons (by simp), relay, ?_, hpeer⟩
    simp [relay?, hquery, ← hr]
  | cons e events ih =>
    obtain ⟨grant, message, failed, -, hm, rfl⟩ := he e (by simp)
    obtain ⟨gateway, -, rfl⟩ := Option.map_eq_some_iff.mp hm
    obtain ⟨ha, hf⟩ := ih fun e he' => he e (List.mem_cons_of_mem _ he')
    rw [Exchange.ofStep_sent]
    exact ⟨ha.said hf, hf⟩

/-- A step talks to the peer that is faced, or turns to another one first. -/
theorem Facing.course (h : Facing log t) (hc : Course input t w answer events u) :
    Facing (Exchange.ofStep t.key events answer ++ log) u := by
  cases hc with
  | rest stats running _ => exact ⟨h.addressed, h.discovering, h.related⟩
  | @seek _ trial nonce unconnected failed serial stats running _ _ htrial =>
    rw [Exchange.ofStep_sent, Exchange.ofStep_connected]
    have hs : SeeksRelay t.key t.settings
        (.turned (discoveryPeer t.key t.settings) unconnected ::
          (Exchange.ofStep t.key trial answer ++ log)) := by
      refine ⟨unconnected, rfl, ?_⟩
      rintro rfl
      rfl
    refine ⟨((h.trial htrial).cons (by simp)).said hs, fun _ => hs, ?_⟩
    rintro (hp | hp | hg)
    · cases hp
    · cases hp
    · cases hg
  | report packet failed keepaliveTimer stats _ hg =>
    rw [Exchange.ofStep_sent]
    have hf : FacesRelay t.settings log := h.related (.inr (.inr (by simp [hg])))
    exact ⟨h.addressed.said hf, h.discovering, fun _ => hf⟩
  | turn request failed serial stats hadv =>
    rw [Exchange.ofStep_sent, Exchange.ofStep_connected]
    apply facing_of_facesRelay
    · exact h.addressed.turn _ _ _ _
    · rw [phase, Handshake.phase_startRequest (Handshake.canRequest_of_onAdvertisement hadv)]
      exact Phase.noConfusion
    · exact ⟨_, rfl, rfl⟩
  | @establish limited mac nonce packet gateway interval stale handshake _ stats hq htear =>
    obtain ⟨hp, -, -, rfl⟩ := Handshake.onQuery_eq_ok.mp hq
    obtain ⟨ha, hf⟩ := h.establish hp (.membershipQuery limited mac nonce packet gateway) rfl htear
    exact facing_of_facesRelay ha Phase.noConfusion hf
  | renew nonce failed serial stats _ hp =>
    rw [Exchange.ofStep_sent]
    exact h.request (.inr hp) nonce rfl rfl
      (Handshake.phase_startRequest (Handshake.canRequest_of_established hp) nonce)
  | repeatRequest failed serial stats _ hr =>
    obtain ⟨nonce, hm, hp, -⟩ := Handshake.retryRequest_resend hr
    obtain rfl := Handshake.retryRequest_resend_eq hr
    rw [Exchange.ofStep_sent]
    exact h.request (.inl hp) _ rfl rfl hp
  | repeatDiscovery failed serial stats _ hr =>
    obtain ⟨nonce, hm, hp, -⟩ := Handshake.retryDiscovery_some hr
    obtain rfl := Handshake.retryDiscovery_some_eq hr
    rw [Exchange.ofStep_sent]
    exact ⟨h.addressed.said (h.discovering hp), h.discovering, h.related⟩
  | giveUp _ hr =>
    obtain rfl | ⟨-, rfl⟩ := Handshake.retryDiscovery_none hr
    · exact ⟨h.addressed, h.discovering, h.related⟩
    · exact facing_of_disconnected h.addressed rfl rfl
  | lapse alarm _ _ _ => exact ⟨h.addressed, h.discovering, h.related⟩
  | close _ =>
    unfold close
    split
    · exact h
    · exact facing_of_disconnected h.addressed rfl rfl

theorem Dialogue.configured (h : Dialogue key settings log t w) :
    t.key = key ∧ t.settings = settings := by
  induction h with
  | created w => exact ⟨rfl, rfl⟩
  | @step log t w input _ _ ih =>
    obtain ⟨events, -, hc⟩ := takes_step input t w
    exact ⟨hc.configured.1.trans ih.1, hc.configured.2.trans ih.2⟩
  | elapse _ _ ih => exact ih

theorem Facing.step (h : Facing log t) (input : Input) (w : World) :
    Facing (t.exchanges input w ++ log) (t.step input w).1 := by
  obtain ⟨events, htrace, hc⟩ := takes_step input t w
  rw [exchanges, World.eventsSince_eq htrace]
  exact h.course hc

theorem Dialogue.facing (h : Dialogue key settings log t w) : Facing log t := by
  induction h with
  | created w => exact facing_of_disconnected allAddressed_nil rfl rfl
  | @step log t w input _ _ ih => exact ih.step input w
  | elapse _ _ ih => exact ih

/-- **Messages go to the peer that they are meant for**, whatever the relay answers and the
transport fails at. Requests, updates and teardowns are handed over while the transport faces
the relay of the last accepted advertisement. Discoveries are handed over after the transport
was to turn to the discovery address, and it faces that address unless it failed to turn. No
other message is handed over. -/
theorem Dialogue.all_addressed (h : Dialogue key settings log t w) :
    AllAddressed key settings log := by
  obtain ⟨hk, hs⟩ := h.configured
  rw [← hk, ← hs]
  exact h.facing.addressed

theorem Dialogue.of_eq {known : List Exchange} (h : Dialogue key settings log t w)
    (e : log = known) : Dialogue key settings known t w :=
  e ▸ h

/-- A gateway whose relay answers sends its request there. -/
theorem seeking_asks_its_relay :
    let relay : Address := .v4 #v[203, 0, 113, 9]
    let before : List Exchange :=
      [.turned ⟨relay, 2268, 0, 0⟩ false, .heard (.relayAdvertisement 7 relay),
        .said (.relayDiscovery 7), .turned ⟨.v4 #v[192, 0, 2, 1], 2268, 0, 0⟩ false]
    let asking := step relayAnswers seeking.1 seeking.2
    Dialogue seeking.1.key {} (.said (.request 7 .ipv4) :: before) asking.1 asking.2 ∧
      FacesRelay {} before := by
  intro relay before asking
  have hd : Dialogue seeking.1.key {} (.said (.request 7 .ipv4) :: before) asking.1 asking.2 :=
    .of_eq (.step relayAnswers (.step .start (.created _) trivial) trivial) (by decide +kernel)
  exact ⟨hd, hd.all_addressed [] _ _ rfl⟩

/-- A gateway that found its relay and lost it, and whose transport does not turn back to
the discovery address. -/
def stray : Tunnel × World :=
  let refused : SocketError := .io (.general .connectionRefused)
  let s := step .start { key := seeking.1.key, settings := {} }
    { oracle :=
        { nonce := fun _ => 7
          chance := fun _ => 0
          connect := fun _ before => if before.length < 4 then none else some refused } }
  let s := step relayAnswers s.1 s.2
  step (.receive (.error refused)) s.1 s.2

/-- It sends its discovery to the relay that it lost, and each time that the timer runs out
it sends it there again, without another attempt to turn. -/
theorem stray_seeks_at_lost_relay :
    let lost : SocketAddress := ⟨.v4 #v[203, 0, 113, 9], 2268, 0, 0⟩
    let before : List Exchange :=
      [.turned (discoveryPeer seeking.1.key {}) true, .said (.request 7 .ipv4), .turned lost false,
        .heard (.relayAdvertisement 7 lost.address), .said (.relayDiscovery 7),
        .turned (discoveryPeer seeking.1.key {}) false]
    Dialogue seeking.1.key {} (.said (.relayDiscovery 7) :: before) stray.1 stray.2 ∧
      peer? before = some lost ∧ lost ≠ discoveryPeer seeking.1.key {} ∧
      (Input.fire .discovery).Possible stray.1 ∧
      stray.1.exchanges (.fire .discovery) stray.2 = [.said (.relayDiscovery 7)] := by
  intro lost before
  have hd : Dialogue seeking.1.key {} (.said (.relayDiscovery 7) :: before) stray.1 stray.2 :=
    .of_eq (.step _ (.step relayAnswers (.step .start (.created _) trivial) trivial) trivial)
      (by decide +kernel)
  exact ⟨hd, rfl, by decide, ⟨_, .head _⟩, by decide +kernel⟩

end Tunnel

end MulticastTunnel
