import MulticastTunnel.Reassembly.Reassembler
import MulticastTunnel.Tunnel

/-!
# Interfaces

An interface is all that belongs to one discovery address and family: the
tunnel, the reporter that sends through it, the tree of channels that joins
and leaves through the reporter, and the reassembler of what comes in. Whole
packets go to the outputs, and datagrams to the sinks of their channels.
-/

namespace MulticastTunnel

open MulticastTunnel.Membership MulticastTunnel.Reassembly

structure InterfaceSettings where
  tunnel : TunnelSettings := {}
  membership : ReporterSettings := {}
  reassembly : Limits := {}
deriving DecidableEq, Repr

structure Interface where
  tunnel : Tunnel
  reporter : Reporter
  channels : ChannelTree := {}
  reassembler : Reassembler
  /-- The sinks of all whole packets, in the order in which they came. -/
  outputs : List SinkId := []
  /-- The sink that is told of datagrams that were dropped unfinished. -/
  timeoutSink : Option SinkId := none
  /-- When old datagrams are looked for next. -/
  reaper : Option Timer := none
  /-- Fragments that found no room. -/
  overflows : Nat := 0
  /-- Outputs removed because they were gone. -/
  outputEvictions : Nat := 0
  closed : Bool := false
deriving DecidableEq

namespace Interface

/-- The time between two searches for old datagrams. -/
def reaperInterval : Nat := 1000

def key (i : Interface) : InterfaceKey := i.tunnel.key

/-! ## Parts -/

/-- Works on the reporter, which sends through the tunnel. -/
def onReporter {α : Type} (i : Interface) (w : World)
    (f : Reporter → Tunnel × World → α × Reporter × Tunnel × World) : α × Interface × World :=
  let (a, reporter, tunnel, w) := f i.reporter (i.tunnel, w)
  (a, { i with reporter, tunnel }, w)

/-- Works on the channels, which join and leave through the reporter. -/
def onChannels {α : Type} (i : Interface) (w : World)
    (f : Control (Reporter × Tunnel × World) → ChannelTree → Reporter × Tunnel × World →
      α × ChannelTree × Reporter × Tunnel × World) : α × Interface × World :=
  let (a, channels, reporter, tunnel, w) :=
    f (Reporter.control Tunnel.outlet w.now) i.channels (i.reporter, i.tunnel, w)
  (a, { i with channels, reporter, tunnel }, w)

/-- Gives datagrams of the channel tree to their sinks. -/
def deliverDatagram : Deliver (Reporter × Tunnel × World) := fun sink d (r, t, w) =>
  let (result, w) := w.giveDatagram sink d
  (result, r, t, w)

/-! ## Subscribers -/

def join (sink : SinkId) (c : Channel) (i : Interface) (w : World) :
    Except ChannelError Unit × Interface × World :=
  i.onChannels w fun control tree w => tree.join control sink c w

def leave (sink : SinkId) (c : Channel) (i : Interface) (w : World) :
    Except ChannelError Unit × Interface × World :=
  i.onChannels w fun control tree w => tree.leave control sink c w

def leaveSink (sink : SinkId) (i : Interface) (w : World) :
    Except ChannelError Unit × Interface × World :=
  i.onChannels w fun control tree w => tree.leaveSink control sink w

/-- Ends every subscription and leaves every group. -/
def leaveAll (i : Interface) (w : World) : Except MembershipError Unit × Interface × World :=
  let ((), i, w) := i.onChannels w fun control tree w => ((), tree.flush control w)
  i.onReporter w fun r v => r.leaveAll Tunnel.outlet w.now v

/-- Adds a sink for whole packets, unless it is one already. -/
def addOutput (sink : SinkId) (i : Interface) : Interface :=
  if sink ∈ i.outputs then i else { i with outputs := i.outputs ++ [sink] }

/-- Removes a sink for whole packets, and tells whether it was one. -/
def removeOutput (sink : SinkId) (i : Interface) : Bool × Interface :=
  (i.outputs.contains sink, { i with outputs := i.outputs.filter (· ≠ sink) })

/-! ## Packets -/

/-- Gives a packet to the outputs. One that does not take it is removed. -/
def deliverOutputs (p : Packet) : List SinkId → Interface → World → Interface × World
  | [], i, w => (i, w)
  | sink :: sinks, i, w =>
    match w.givePacket sink p with
    | (.ok (), w) => deliverOutputs p sinks i w
    | (.error e, w) =>
      let evictions :=
        if e = .disconnected then i.outputEvictions + 1 else i.outputEvictions
      deliverOutputs p sinks { (i.removeOutput sink).2 with outputEvictions := evictions } w

/-- The datagram in a packet that is for the channels: one to a group. -/
def channelDatagram? (p : Packet) : Option Datagram :=
  if p.protocol = Protocol.udp ∧ p.destination.isMulticast then (Datagram.parse p).toOption
  else none

/-- Gives a whole packet to the outputs, and its datagram to the channels. -/
def deliver (p : Packet) (i : Interface) (w : World) : Interface × World :=
  let (i, w) := deliverOutputs p i.outputs i w
  match channelDatagram? p with
  | none => (i, w)
  | some d => (i.onChannels w fun control tree w => tree.dispatch control deliverDatagram d w).2

def deliverAll : List Packet → Interface → World → Interface × World
  | [], i, w => (i, w)
  | p :: ps, i, w =>
    let (i, w) := i.deliver p w
    deliverAll ps i w

/-- Sees to it that old datagrams are looked for. -/
def ensureReaper (i : Interface) (w : World) : Interface × World :=
  if i.reaper.isSome ∨ i.reassembler.isEmpty then (i, w)
  else
    let (timer, w) := w.timer reaperInterval
    ({ i with reaper := some timer }, w)

/-- Takes a packet in, and tells how many whole packets it completed. -/
def ingest (p : Packet) (i : Interface) (w : World) :
    Except ReassemblyError Nat × Interface × World :=
  match i.reassembler.process p w.now with
  | (.error e, reassembler) => (.error e, { i with reassembler }, w)
  | (.ok completed, reassembler) =>
    let (i, w) := { i with reassembler }.ensureReaper w
    (.ok completed.length, deliverAll completed i w)

/-- Tells a sink of packets, whether or not it takes them. -/
def notify (sink : SinkId) : List Packet → World → World
  | [], w => w
  | p :: ps, w => notify sink ps (w.givePacket sink p).2

/-- Drops datagrams that are too old, and delivers those that were completed in
their place. -/
def reap (i : Interface) (w : World) : Interface × World :=
  let i := { i with reaper := none }
  if i.closed then (i, w)
  else
    let (expired, reassembler) := i.reassembler.evict w.now
    let (i, w) := { i with reassembler }.ensureReaper w
    let w := match i.timeoutSink with
      | none => w
      | some sink => notify sink expired.timedOut w
    deliverAll expired.completed i w

/-! ## The tunnel -/

def onQuery (q : Query) (i : Interface) (w : World) : Interface × World :=
  let (chance, w) := w.chance
  (i.onReporter w fun r v => r.onQuery Tunnel.outlet w.now chance q v).2

/-- Takes a packet in that came through the tunnel. -/
def onData (p : Packet) (i : Interface) (w : World) : Interface × World :=
  match i.ingest p w with
  | (.ok _, i, w) => (i, w)
  | (.error _, i, w) => ({ i with overflows := i.overflows + 1 }, w)

def onNotice (n : Option Notice) (i : Interface) (w : World) : Interface × World :=
  match n with
  | none => (i, w)
  | some (.query q) => i.onQuery q w
  | some (.data p) => i.onData p w

def handle (b : Bytes) (i : Interface) (w : World) : Interface × World :=
  let (notice, tunnel, w) := i.tunnel.handle b w
  { i with tunnel }.onNotice notice w

def receive (received : Except SocketError Bytes) (i : Interface) (w : World) :
    Interface × World :=
  let (notice, tunnel, w) := i.tunnel.receive received w
  { i with tunnel }.onNotice notice w

def send (p : Packet) (i : Interface) (w : World) :
    Except TunnelError SendOutcome × Interface × World :=
  let (result, tunnel, w) := i.tunnel.send p w
  (result, { i with tunnel }, w)

def start (i : Interface) (w : World) : Except TunnelError Unit × Interface × World :=
  let (result, tunnel, w) := i.tunnel.start w
  (result, { i with tunnel }, w)

/-! ## Opening and closing -/

/-- An interface whose tunnel is not started. -/
def create (key : InterfaceKey) (settings : InterfaceSettings) : Interface where
  tunnel := { key, settings := settings.tunnel }
  reporter := { family := key.family, settings := settings.membership }
  reassembler := { limits := settings.reassembly }

/-- Leaves every group and does nothing any more. Tells whether the interface
was open. -/
def close (i : Interface) (w : World) : Bool × Interface × World :=
  if i.closed then (false, i, w)
  else
    let (_, i, w) := { i with closed := true }.leaveAll w
    (true,
      { i with
        reaper := none
        reporter := i.reporter.close
        tunnel := i.tunnel.close
        reassembler := i.reassembler.close
        outputs := [] }, w)

/-! ## Timers -/

inductive Alarm
  | tunnel (alarm : Tunnel.Alarm)
  | reporter (alarm : Reporter.Alarm)
  /-- To look for old datagrams. -/
  | reaper
deriving DecidableEq

def alarms (i : Interface) : List (Timer × Alarm) :=
  (i.tunnel.alarms.map fun (timer, a) => (timer, .tunnel a)) ++
    (i.reporter.alarms.map fun (timer, a) => (timer, .reporter a)) ++
    (i.reaper.toList.map fun timer => (timer, .reaper))

def fire (alarm : Alarm) (i : Interface) (w : World) : Interface × World :=
  match alarm with
  | .tunnel a =>
    let (tunnel, w) := i.tunnel.fire a w
    ({ i with tunnel }, w)
  | .reporter a =>
    (i.onReporter w fun r v => ((), r.fire Tunnel.outlet w.now a v)).2
  | .reaper => i.reap w

/-- Fires the timers that are due, at most `fuel` of them. -/
def settle (fuel : Nat) (i : Interface) (w : World) : Interface × World :=
  Timer.settle (fun s => s.1.alarms) (fun alarm s => s.1.fire alarm s.2) w.now fuel (i, w)

/-! ## Statistics -/

structure Stats where
  phase : Phase
  reportsSent : Nat
  refusals : Nat
  data : Nat
  reassembled : Nat
  delivered : Nat
  timeouts : Nat
  overflows : Nat
  evictions : Nat
  groups : Nat
  channels : Nat
deriving DecidableEq, Repr

def stats (i : Interface) : Stats where
  phase := i.tunnel.phase
  reportsSent := i.reporter.reportsSent
  refusals := i.tunnel.stats.refusals
  data := i.tunnel.stats.data
  reassembled := i.reassembler.stats.completed
  delivered := i.channels.delivered
  timeouts := i.reassembler.stats.timedOut
  overflows := i.overflows
  evictions := i.channels.evictions + i.outputEvictions
  groups := i.channels.groupCount
  channels := i.channels.channelCount

end Interface

end MulticastTunnel
