import MulticastTunnel.Handshake
import MulticastTunnel.Message.Codec
import MulticastTunnel.World

/-!
# Tunnels

A tunnel carries out a handshake: it discovers a relay, requests queries from
it, sends reports under the grant of the last query, and asks for a new query
before the relay forgets it. A relay that stops answering is discovered anew.
-/

namespace MulticastTunnel

open MulticastTunnel.Membership

/-- The port on which relays listen unless another one is given. -/
def defaultRelayPort : UInt16 := 2268

structure TunnelSettings where
  /-- The port on which relays listen. -/
  relayPort : UInt16 := defaultRelayPort
  /-- The time between discoveries. -/
  discoveryInterval : Nat := 2000
  /-- Discoveries sent before giving up. -/
  discoveryLimit : Option UInt32 := none
  /-- The time between requests. -/
  requestInterval : Nat := 2000
  /-- Requests repeated before the relay is given up. -/
  requestLimit : UInt32 := 2
  /-- The time after which a session is renewed, while no query tells it. -/
  defaultInterval : Nat := 125000
  /-- The time after which receiving pauses to see whether the tunnel was closed. -/
  receiveTimeout : Nat := 250
deriving DecidableEq, Repr

structure TunnelStats where
  updates : Nat := 0
  refusals : Nat := 0
  discoveries : Nat := 0
  requests : Nat := 0
  queries : Nat := 0
  data : Nat := 0
  dropped : Nat := 0
  teardowns : Nat := 0
deriving DecidableEq, Repr

structure Tunnel where
  key : InterfaceKey
  settings : TunnelSettings
  handshake : Handshake :=
    { family := key.family, defaultInterval := settings.defaultInterval }
  discoveryTimer : Option Timer := none
  requestTimer : Option Timer := none
  keepaliveTimer : Option Timer := none
  /-- Messages of the relay are being received. -/
  running : Bool := false
  closed : Bool := false
  stats : TunnelStats := {}
deriving DecidableEq

namespace Tunnel

def phase (t : Tunnel) : Phase := t.handshake.phase

/-- The address from which reports come: that of the transport if it is of the
tunnel's family. -/
def localAddress (t : Tunnel) (w : World) : Address :=
  match w.oracle.localAddress t.key with
  | some a => if a.address.family = t.key.family then a.address else .unspecified t.key.family
  | none => .unspecified t.key.family

def withoutTimers (t : Tunnel) : Tunnel :=
  { t with discoveryTimer := none, requestTimer := none, keepaliveTimer := none }

/-! ## Sending -/

/-- Sends a discovery, whether or not the transport takes it, and waits for the
answer. -/
def sendDiscovery (message : Message) (t : Tunnel) (w : World) : Tunnel × World :=
  let (error, w) := w.send t.key message
  let discoveries := if error.isNone then t.stats.discoveries + 1 else t.stats.discoveries
  let (timer, w) := w.timer t.settings.discoveryInterval
  ({ t with discoveryTimer := some timer, stats := { t.stats with discoveries } }, w)

/-- Forgets the relay and discovers one under a fresh nonce. -/
def beginDiscovery (t : Tunnel) (w : World) : Tunnel × World :=
  let (nonce, w) := w.nonce
  let (message, handshake) := t.handshake.startDiscovery nonce
  let (_, w) := w.connect t.key ⟨t.key.discoveryAddress, t.settings.relayPort, 0, 0⟩
  sendDiscovery message { t.withoutTimers with handshake } w

/-- Sends a request and waits for the answer. A relay that cannot be reached is
given up. -/
def sendRequest (message : Message) (t : Tunnel) (w : World) : Tunnel × World :=
  let (error, w) := w.send t.key message
  if error.any (·.isUnreachable) then t.beginDiscovery w
  else
    let requests := if error.isNone then t.stats.requests + 1 else t.stats.requests
    let (timer, w) := w.timer t.settings.requestInterval
    ({ t with requestTimer := some timer, stats := { t.stats with requests } }, w)

def beginRequest (t : Tunnel) (w : World) : Tunnel × World :=
  let (nonce, w) := w.nonce
  match t.handshake.startRequest nonce with
  | (none, _) => (t, w)
  | (some message, handshake) => sendRequest message { t with handshake } w

/-- Sees to it that the session is renewed in time. -/
def keepAlive (t : Tunnel) (w : World) : Tunnel × World :=
  if t.keepaliveTimer.isSome then (t, w)
  else
    let (timer, w) := w.timer t.handshake.queryInterval
    ({ t with keepaliveTimer := some timer }, w)

/-- Notes a report that cannot be sent yet, and discovers a relay if nobody is
about to. -/
def refuse (t : Tunnel) (w : World) : Tunnel × World :=
  let (t, w) := if t.phase = .disconnected then t.beginDiscovery w else (t, w)
  ({ t with stats := { t.stats with refusals := t.stats.refusals + 1 } }, w)

/-- Sends a report to the relay. While something is received the session is
kept alive. -/
def send (packet : Packet) (t : Tunnel) (w : World) :
    Except TunnelError SendOutcome × Tunnel × World :=
  if t.closed then (.error .closed, t, w)
  else if packet.family ≠ t.key.family then
    (.error (.familyMismatch t.key.family packet.family), t, w)
  else
    match Report.ofPacket packet with
    | .error e => (.error (.invalidReport e), t, w)
    | .ok report =>
      match t.handshake.update packet with
      | none => (.ok .notReady, t.refuse w)
      | some message =>
        match w.send t.key message with
        | (some e, w) =>
          if e.isUnreachable then (.error .unreachable, t.beginDiscovery w)
          else (.error (.socket e), t, w)
        | (none, w) =>
          let t := { t with stats := { t.stats with updates := t.stats.updates + 1 } }
          (.ok .sent, if report.describesReception then t.keepAlive w else (t, w))

def outlet : Outlet (Tunnel × World) where
  localAddress := fun (t, w) => t.localAddress w
  send packet := fun (t, w) => t.send packet w
  serial := fun (t, w) =>
    let (serial, w) := w.serial
    (serial, t, w)

/-! ## Messages of the relay -/

def drop (t : Tunnel) : Tunnel :=
  { t with stats := { t.stats with dropped := t.stats.dropped + 1 } }

/-- Turns to the relay of an advertisement and sends it a request. -/
def onAdvertisement (nonce : Nonce) (relay : Address) (t : Tunnel) (w : World) :
    Tunnel × World :=
  match t.handshake.onAdvertisement nonce relay with
  | .error _ => (t.drop, w)
  | .ok handshake =>
    let t := { t with handshake, discoveryTimer := none }
    match w.connect t.key ⟨relay, t.settings.relayPort, 0, 0⟩ with
    | (some _, w) => t.beginDiscovery w
    | (none, w) => t.beginRequest w

/-- Takes down what a relay keeps under an earlier address. -/
def tearDown (stale : Option Grant) (t : Tunnel) (w : World) : Tunnel × World :=
  match stale.bind Grant.teardown with
  | none => (t, w)
  | some message =>
    match w.send t.key message with
    | (some _, w) => (t, w)
    | (none, w) => ({ t with stats := { t.stats with teardowns := t.stats.teardowns + 1 } }, w)

/-- Takes the grant of a query, and tells the query. -/
def onQuery (grant : Grant) (packet : Packet) (t : Tunnel) (w : World) :
    Option Notice × Tunnel × World :=
  match Query.ofPacket packet with
  | .error _ => (none, t.drop, w)
  | .ok query =>
    if query.family ≠ t.key.family then (none, t.drop, w)
    else
      match t.handshake.onQuery grant (some query.queryInterval) with
      | .error _ => (none, t.drop, w)
      | .ok (stale, handshake) =>
        let stats := { t.stats with queries := t.stats.queries + 1 }
        (some (.query query), { t with handshake, requestTimer := none, stats }.tearDown stale w)

def handle (b : Bytes) (t : Tunnel) (w : World) : Option Notice × Tunnel × World :=
  match Message.decode b with
  | .error _ => (none, t.drop, w)
  | .ok (.relayAdvertisement nonce relay) => (none, t.onAdvertisement nonce relay w)
  | .ok (.membershipQuery limited mac nonce query gateway) =>
    t.onQuery ⟨mac, nonce, gateway, limited⟩ query w
  | .ok (.multicastData packet) =>
    (some (.data packet), { t with stats := { t.stats with data := t.stats.data + 1 } }, w)
  | .ok _ => (none, t.drop, w)

/-- Discovers anew when a relay that was found is gone. -/
def onUnreachable (t : Tunnel) (w : World) : Tunnel × World :=
  match t.phase with
  | .requesting | .established => t.beginDiscovery w
  | .disconnected | .discovering => (t, w)

/-- Takes what receiving gave: a datagram, or an error. An error other than a
timeout or an unreachable relay ends receiving. -/
def receive (received : Except SocketError Bytes) (t : Tunnel) (w : World) :
    Option Notice × Tunnel × World :=
  match received with
  | .ok b => t.handle b w
  | .error e =>
    if e.isTimeout then (none, t, w)
    else if e.isUnreachable then (none, t.onUnreachable w)
    else (none, { t with running := false }, w)

/-! ## Starting and closing -/

/-- Starts receiving, and discovery if there is none. -/
def start (t : Tunnel) (w : World) : Except TunnelError Unit × Tunnel × World :=
  if t.closed then (.error .closed, t, w)
  else if t.running then (.ok (), t, w)
  else
    let t := { t with running := true }
    (.ok (), if t.phase = .disconnected then t.beginDiscovery w else (t, w))

/-- Forgets the relay and does nothing any more. -/
def close (t : Tunnel) : Tunnel :=
  if t.closed then t
  else
    { t.withoutTimers with handshake := t.handshake.reset, running := false, closed := true }

/-! ## Timers -/

inductive Alarm
  /-- To repeat the discovery. -/
  | discovery
  /-- To repeat the request. -/
  | request
  /-- To renew the session. -/
  | keepalive
deriving DecidableEq, Repr

def alarms (t : Tunnel) : List (Timer × Alarm) :=
  (t.discoveryTimer.toList.map fun timer => (timer, .discovery)) ++
    (t.requestTimer.toList.map fun timer => (timer, .request)) ++
    (t.keepaliveTimer.toList.map fun timer => (timer, .keepalive))

def onDiscoveryTimer (t : Tunnel) (w : World) : Tunnel × World :=
  let t := { t with discoveryTimer := none }
  if t.closed then (t, w)
  else
    match t.handshake.retryDiscovery t.settings.discoveryLimit with
    | (none, handshake) => ({ t with handshake }, w)
    | (some message, handshake) => sendDiscovery message { t with handshake } w

def onRequestTimer (t : Tunnel) (w : World) : Tunnel × World :=
  let t := { t with requestTimer := none }
  if t.closed then (t, w)
  else
    match t.handshake.retryRequest t.settings.requestLimit with
    | (none, handshake) => ({ t with handshake }, w)
    | (some .exhausted, handshake) => { t with handshake }.beginDiscovery w
    | (some (.resend message), handshake) => sendRequest message { t with handshake } w

def onKeepaliveTimer (t : Tunnel) (w : World) : Tunnel × World :=
  let t := { t with keepaliveTimer := none }
  if t.closed ∨ t.phase ≠ .established then (t, w) else t.beginRequest w

def fire (alarm : Alarm) (t : Tunnel) (w : World) : Tunnel × World :=
  match alarm with
  | .discovery => t.onDiscoveryTimer w
  | .request => t.onRequestTimer w
  | .keepalive => t.onKeepaliveTimer w

/-- Fires the timers that are due, at most `fuel` of them. -/
def settle (fuel : Nat) (t : Tunnel) (w : World) : Tunnel × World :=
  Timer.settle (fun s => s.1.alarms) (fun alarm s => s.1.fire alarm s.2) w.now fuel (t, w)

end Tunnel

end MulticastTunnel
