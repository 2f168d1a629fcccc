import MulticastTunnel.Interface
import MulticastTunnel.Registry

/-!
# Gateways

A gateway opens one interface for each discovery address and family that is
asked for, shares it by leases, and closes it when nobody holds one any more.
Subscriptions and relay handles hold leases.
-/

namespace MulticastTunnel

open Keyed

inductive GatewayError
  | io (error : IoError)
  | socket (error : SocketError)
  | tunnel (error : TunnelError)
  | channel (error : ChannelError)
  | membership (error : Membership.MembershipError)
deriving DecidableEq

namespace GatewayError

def message : GatewayError → String
  | io e => "I/O error: " ++ e.message
  | socket e => "Socket error: " ++ e.message
  | tunnel e => "Tunnel error: " ++ e.message
  | channel e => "Channel error: " ++ e.message
  | membership e => "Membership error: " ++ e.message

def name : GatewayError → String
  | io _ => "Io"
  | socket e => "Socket." ++ e.name
  | tunnel e => "Tunnel." ++ e.name
  | channel e => "Channel." ++ e.name
  | membership e => "Membership." ++ e.name

instance : Fault GatewayError := ⟨name, message⟩

def ofTransport : TransportError → GatewayError
  | .io e => io e
  | .socket e => socket e

end GatewayError

/-! ## Open interfaces -/

/-- The open interfaces, by the order in which they were opened, in the world
around them. -/
structure Site where
  world : World
  interfaces : Table Nat Interface := ∅
  /-- Interfaces opened so far. -/
  opened : Nat := 0

namespace Site

/-- Works on an open interface. Where there is none, nothing happens. -/
def on {α : Type} (n : Nat) (f : Interface → World → α × Interface × World) (s : Site) :
    Option α × Site :=
  match s.interfaces.get? n with
  | none => (none, s)
  | some i =>
    let (a, i, world) := f i s.world
    (some a, { s with world, interfaces := s.interfaces.insert n i })

/-- Opens an interface over a transport of its own and starts its tunnel. -/
def openInterface (settings : InterfaceSettings) (key : InterfaceKey) (s : Site) :
    Except GatewayError Nat × Site :=
  match s.world.openTransport key settings.tunnel.relayPort with
  | (some e, world) => (.error (.ofTransport e), { s with world })
  | (none, world) =>
    match (Interface.create key settings).start world with
    | (.error e, _, world) => (.error (.tunnel e), { s with world })
    | (.ok (), i, world) =>
      (.ok s.opened,
        { world, interfaces := s.interfaces.insert s.opened i, opened := s.opened + 1 })

def closeInterface (n : Nat) (s : Site) : Site :=
  match s.interfaces.get? n with
  | none => s
  | some i => { s with world := (i.close s.world).2.2, interfaces := s.interfaces.erase n }

/-- Every pending timer of every interface with what it is for. -/
def alarms (s : Site) : List (Timer × Nat × Interface.Alarm) :=
  s.interfaces.toList.flatMap fun (n, i) => i.alarms.map fun (timer, a) => (timer, n, a)

/-- Fires the timers that are due, at most `fuel` of them. -/
def settle (fuel : Nat) (s : Site) : Site :=
  Timer.settle alarms
    (fun (n, a) s => (s.on n fun i w => ((), i.fire a w)).2) s.world.now fuel s

end Site

/-! ## Gateways -/

abbrev InterfaceLease := Lease InterfaceKey Nat

structure Gateway where
  settings : InterfaceSettings
  site : Site
  registry : Registry InterfaceKey Nat := {}

namespace Gateway

/-- Takes a lease of an interface, which is opened if need be. -/
def acquire (key : InterfaceKey) (g : Gateway) : Except GatewayError InterfaceLease × Gateway :=
  let (result, registry, site) := g.registry.acquire (Site.openInterface g.settings) key g.site
  (result, { g with registry, site })

def clone (lease : InterfaceLease) (g : Gateway) : Gateway :=
  { g with registry := g.registry.clone lease }

/-- Gives a lease back, and closes the interface if it was the last one. -/
def release (lease : InterfaceLease) (g : Gateway) : Gateway :=
  let (registry, site) := g.registry.release Site.closeInterface lease g.site
  { g with registry, site }

/-- Works on the open interface of a key, if there is one. -/
def on {α : Type} (key : InterfaceKey) (f : Interface → World → α × Interface × World)
    (g : Gateway) : Option α × Gateway :=
  match g.registry.get? key with
  | none => (none, g)
  | some n =>
    let (a, site) := g.site.on n f
    (a, { g with site })

/-- Works on the interface of a lease; `absent` is the answer if it were gone. -/
def onLease {α : Type} (lease : InterfaceLease) (absent : α)
    (f : Interface → World → α × Interface × World) (g : Gateway) : α × Gateway :=
  let (result, site) := g.site.on lease.value f
  (result.getD absent, { g with site })

/-- Every open interface with its key and the number of its leases. -/
def interfaces (g : Gateway) : List (InterfaceKey × Nat × Interface) :=
  g.registry.entries.toList.filterMap fun (key, shared) =>
    (g.site.interfaces.get? shared.value).map fun i => (key, shared.leases, i)

end Gateway

/-! ## Subscriptions -/

/-- A sink's subscription to a channel, which keeps the interface open. -/
structure Subscription where
  lease : InterfaceLease
  sink : SinkId
  channel : Channel
deriving DecidableEq

namespace Gateway

/-- Subscribes a sink to a channel through a relay. -/
def subscribe (relay : Address) (sink : SinkId) (c : Channel) (g : Gateway) :
    Except GatewayError Subscription × Gateway :=
  match g.acquire ⟨relay, c.group.family⟩ with
  | (.error e, g) => (.error e, g)
  | (.ok lease, g) =>
    match g.onLease lease (.ok ()) (Interface.join sink c) with
    | (.error e, g) => (.error (.channel e), g.release lease)
    | (.ok (), g) => (.ok ⟨lease, sink, c⟩, g)

def unsubscribe (s : Subscription) (g : Gateway) : Except GatewayError Unit × Gateway :=
  let (result, g) := g.onLease s.lease (.ok ()) (Interface.leave s.sink s.channel)
  (result.mapError .channel, g.release s.lease)

end Gateway

/-! ## Relay handles -/

/-- Joins channels through one relay, by an interface for each family that is
opened for its first use. -/
structure RelayHandle where
  discoveryAddress : Address
  v4 : Option InterfaceLease := none
  v6 : Option InterfaceLease := none
deriving DecidableEq

namespace RelayHandle

def slot (h : RelayHandle) : Family → Option InterfaceLease
  | .ipv4 => h.v4
  | .ipv6 => h.v6

def setSlot (h : RelayHandle) (family : Family) (lease : InterfaceLease) : RelayHandle :=
  match family with
  | .ipv4 => { h with v4 := some lease }
  | .ipv6 => { h with v6 := some lease }

/-- Takes a lease beside the one that the handle holds. -/
def acquire (family : Family) (h : RelayHandle) (g : Gateway) :
    Except GatewayError InterfaceLease × RelayHandle × Gateway :=
  match h.slot family with
  | some lease => (.ok lease, h, g.clone lease)
  | none =>
    match g.acquire ⟨h.discoveryAddress, family⟩ with
    | (.error e, g) => (.error e, h, g)
    | (.ok lease, g) => (.ok lease, h.setSlot family lease, g.clone lease)

def join (sink : SinkId) (c : Channel) (h : RelayHandle) (g : Gateway) :
    Except GatewayError Unit × RelayHandle × Gateway :=
  match h.acquire c.group.family g with
  | (.error e, h, g) => (.error e, h, g)
  | (.ok lease, h, g) =>
    let (result, g) := g.onLease lease (.ok ()) (Interface.join sink c)
    (result.mapError .channel, h, g.release lease)

/-- Ends a subscription. A family that was never used has none. -/
def leave (sink : SinkId) (c : Channel) (h : RelayHandle) (g : Gateway) :
    Except GatewayError Unit × RelayHandle × Gateway :=
  match h.slot c.group.family with
  | none => (.ok (), h, g)
  | some lease =>
    let (result, g) := g.onLease lease (.ok ()) (Interface.leave sink c)
    (result.mapError .channel, h, g)

/-- Adds a sink for the whole packets of one family. -/
def addOutputFor (sink : SinkId) (family : Family) (h : RelayHandle) (g : Gateway) :
    Except GatewayError Unit × RelayHandle × Gateway :=
  match h.acquire family g with
  | (.error e, h, g) => (.error e, h, g)
  | (.ok lease, h, g) =>
    let ((), g) := g.onLease lease () fun i w => ((), i.addOutput sink, w)
    (.ok (), h, g.release lease)

/-- Adds a sink for the whole packets of both families. -/
def addOutput (sink : SinkId) (h : RelayHandle) (g : Gateway) :
    Except GatewayError Unit × RelayHandle × Gateway :=
  match h.addOutputFor sink .ipv4 g with
  | (.error e, h, g) => (.error e, h, g)
  | (.ok (), h, g) => h.addOutputFor sink .ipv6 g

/-- Removes a sink for the whole packets of one lease's interface. -/
def removeOutputFor (sink : SinkId) (lease : Option InterfaceLease) (g : Gateway) : Gateway :=
  match lease with
  | none => g
  | some lease =>
    (g.onLease lease () fun i w => ((), (i.removeOutput sink).2, w)).2

/-- Removes a sink for whole packets from the families that are used. -/
def removeOutput (sink : SinkId) (h : RelayHandle) (g : Gateway) : Gateway :=
  removeOutputFor sink h.v6 (removeOutputFor sink h.v4 g)

def release (h : RelayHandle) (g : Gateway) : RelayHandle × Gateway :=
  let g := match h.v4 with
    | some lease => g.release lease
    | none => g
  let g := match h.v6 with
    | some lease => g.release lease
    | none => g
  ({ h with v4 := none, v6 := none }, g)

end RelayHandle

end MulticastTunnel
