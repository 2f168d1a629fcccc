import MulticastTunnel.Channel
import MulticastTunnel.Channel.Tree
import MulticastTunnel.Message

/-!
# The world around interfaces

Interfaces talk to transports and sinks, read a clock and draw random
numbers. The world answers them by an oracle, which may take into account all
that happened before, and keeps a trace of what it was given.
-/

namespace MulticastTunnel

open MulticastTunnel.Membership

/-- An interface is shared by all who use one discovery address and family. -/
structure InterfaceKey where
  discoveryAddress : Address
  family : Family
deriving DecidableEq

def InterfaceKey.toText (k : InterfaceKey) : String :=
  k.discoveryAddress.toText ++ "/" ++ k.family.name

/-- What a relay's message brings for the owner of a tunnel. -/
inductive Notice
  | query (query : Query)
  | data (packet : Packet)
deriving DecidableEq

/-- What was done to the outside. -/
inductive Event
  /-- A transport was asked for. -/
  | opened (key : InterfaceKey) (port : UInt16)
  /-- A transport was to talk to another peer. -/
  | connected (key : InterfaceKey) (peer : SocketAddress) (failed : Bool)
  | sent (key : InterfaceKey) (message : Message) (failed : Bool)
  /-- A datagram was given to a sink, which took it or not. -/
  | datagram (sink : SinkId) (datagram : Datagram) (taken : Bool)
  /-- A packet was given to a sink, which took it or not. -/
  | packet (sink : SinkId) (packet : Packet) (taken : Bool)
  /-- A tunnel without an interface had news. -/
  | noticed (notice : Notice)
  /-- A report left without a tunnel. -/
  | reported (packet : Packet)
  /-- A group was joined without a reporter. -/
  | joined (group : Address) (source : Option Address) (done : Bool)
  /-- A group was left without a reporter. -/
  | left (group : Address) (source : Option Address) (done : Bool)
deriving DecidableEq

/-- Why there is no transport for an interface. -/
inductive TransportError
  | io (error : IoError)
  | socket (error : SocketError)
deriving DecidableEq, Repr

/-- The answers of the outside, given what happened before, the latest first.
Where nothing else is said, all goes well. -/
structure Oracle where
  /-- The nonces that are drawn. -/
  nonce : Nat → Nonce
  /-- The random numbers that decide delays. -/
  chance : Nat → Nat
  /-- The local address of a transport, if it tells one. -/
  localAddress : InterfaceKey → Option SocketAddress := fun _ => none
  /-- Why a transport cannot be had, if so. -/
  transport : InterfaceKey → List Event → Option TransportError := fun _ _ => none
  /-- Why a transport does not turn to a peer, if so. -/
  connect : InterfaceKey → List Event → Option SocketError := fun _ _ => none
  /-- Why a transport does not send, if so. -/
  send : InterfaceKey → List Event → Option SocketError := fun _ _ => none
  /-- What a sink says to a datagram. -/
  takeDatagram : SinkId → List Event → Except SinkError Unit := fun _ _ => .ok ()
  /-- What a sink says to a packet. -/
  takePacket : SinkId → List Event → Except SinkError Unit := fun _ _ => .ok ()
  /-- What becomes of a report that leaves without a tunnel. -/
  report : List Event → Except TunnelError SendOutcome := fun _ => .ok .sent
  /-- What becomes of a join without a reporter. -/
  join : List Event → Except MembershipError Unit := fun _ => .ok ()
  /-- What becomes of a leave without a reporter. -/
  leave : List Event → Except MembershipError Unit := fun _ => .ok ()
  /-- Whether somebody wants the news of a tunnel without an interface. -/
  listens : List Event → Bool := fun _ => true

namespace Oracle

/-- The oracle whose transports answer sends with `error`, where `here` holds. -/
def onSend (here : InterfaceKey → List Event → Bool) (error : Option SocketError) (o : Oracle) :
    Oracle :=
  { o with send := fun k t => if here k t then error else o.send k t }

/-- The oracle whose transports answer connects with `error`, where `here` holds. -/
def onConnect (here : InterfaceKey → List Event → Bool) (error : Option SocketError)
    (o : Oracle) : Oracle :=
  { o with connect := fun k t => if here k t then error else o.connect k t }

/-- The oracle whose one sink gives one answer to all. -/
def onSink (sink : SinkId) (result : Except SinkError Unit) (o : Oracle) : Oracle :=
  { o with
    takeDatagram := fun s t => if s = sink then result else o.takeDatagram s t
    takePacket := fun s t => if s = sink then result else o.takePacket s t }

end Oracle

structure World where
  oracle : Oracle
  /-- Milliseconds since the start. -/
  now : Nat := 0
  /-- Timers made so far. -/
  timers : Nat := 0
  /-- Nonces drawn so far. -/
  nonces : Nat := 0
  /-- Random numbers drawn so far. -/
  chances : Nat := 0
  /-- What happened, the latest first. -/
  trace : List Event := []

namespace World

def serial (w : World) : Nat × World := (w.timers, { w with timers := w.timers + 1 })

/-- A timer that runs out after `delay` milliseconds. -/
def timer (w : World) (delay : Nat) : Timer × World :=
  let (serial, w) := w.serial
  (⟨w.now + delay, serial⟩, w)

def nonce (w : World) : Nonce × World :=
  (w.oracle.nonce w.nonces, { w with nonces := w.nonces + 1 })

def chance (w : World) : Nat × World :=
  (w.oracle.chance w.chances, { w with chances := w.chances + 1 })

def record (w : World) (e : Event) : World := { w with trace := e :: w.trace }

def openTransport (w : World) (key : InterfaceKey) (port : UInt16) :
    Option TransportError × World :=
  (w.oracle.transport key w.trace, w.record (.opened key port))

def connect (w : World) (key : InterfaceKey) (peer : SocketAddress) :
    Option SocketError × World :=
  let error := w.oracle.connect key w.trace
  (error, w.record (.connected key peer error.isSome))

/-- Sends a message to the peer of a transport. -/
def send (w : World) (key : InterfaceKey) (m : Message) : Option SocketError × World :=
  let error := w.oracle.send key w.trace
  (error, w.record (.sent key m error.isSome))

def giveDatagram (w : World) (sink : SinkId) (d : Datagram) : Except SinkError Unit × World :=
  let result := w.oracle.takeDatagram sink w.trace
  (result, w.record (.datagram sink d result.isOk))

def givePacket (w : World) (sink : SinkId) (p : Packet) : Except SinkError Unit × World :=
  let result := w.oracle.takePacket sink w.trace
  (result, w.record (.packet sink p result.isOk))

/-- Gives datagrams to their sinks, whatever else there is beside the world. -/
def deliver {α : Type} : Deliver (α × World) := fun sink d (a, w) =>
  let (result, w) := w.giveDatagram sink d
  (result, a, w)

/-- Tells the news of a tunnel that has no interface. -/
def notice (n : Option Notice) (w : World) : World :=
  match n with
  | none => w
  | some n => if w.oracle.listens w.trace then w.record (.noticed n) else w

/-- The way out for reports that need no tunnel. -/
def outlet (source : Address) : Outlet World where
  localAddress _ := source
  send p w := (w.oracle.report w.trace, w.record (.reported p))
  serial := serial

def control : Control World where
  join group source w :=
    let result := w.oracle.join w.trace
    (result, w.record (.joined group source result.isOk))
  leave group source w :=
    let result := w.oracle.leave w.trace
    (result, w.record (.left group source result.isOk))

end World

end MulticastTunnel
