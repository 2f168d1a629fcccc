import MulticastTunnel.Channel
import MulticastTunnel.Datagram
import MulticastTunnel.Membership.Control

/-!
# Channel trees

The subscriptions of one interface, kept by group, source, port and sink. The
interface joins a group, or a source of it, when the first sink subscribes
there, and leaves it when the last one goes. Empty levels are not kept.
-/

namespace MulticastTunnel

open Ordered MulticastTunnel.Membership

/-- Gives a datagram to a sink. -/
abbrev Deliver (ω : Type) := SinkId → Datagram → ω → Except SinkError Unit × ω

/-- The sinks of a group and source, by port. -/
abbrev Branch := OrderedMap UInt16 (OrderedSet SinkId)

structure ChannelTree where
  groups : OrderedMap Address (OrderedMap (Option Address) Branch) := ∅
  /-- Datagrams that a sink took. -/
  delivered : Nat := 0
  /-- Sinks removed because they were gone. -/
  evictions : Nat := 0
  flushes : Nat := 0
deriving DecidableEq

namespace ChannelTree

variable {ω : Type}

/-! ## Contents -/

def branches (t : ChannelTree) (group : Address) : OrderedMap (Option Address) Branch :=
  (t.groups.get? group).getD ∅

def branch (t : ChannelTree) (group : Address) (source : Option Address) : Branch :=
  ((t.branches group).get? source).getD ∅

def sinksOf (t : ChannelTree) (c : Channel) : OrderedSet SinkId :=
  ((t.branch c.group c.source).get? c.port).getD ∅

def contains (t : ChannelTree) (sink : SinkId) (c : Channel) : Bool := sink ∈ t.sinksOf c

def isEmpty (t : ChannelTree) : Bool := t.groups.isEmpty

def groupCount (t : ChannelTree) : Nat := t.groups.size

def channelCount (t : ChannelTree) : Nat :=
  (t.groups.values.flatMap fun branches => branches.values.flatMap (·.keys)).length

/-- Every group and source that is joined, in ascending order. -/
def joined (t : ChannelTree) : List (Address × Option Address) :=
  t.groups.toList.flatMap fun (group, branches) => branches.keys.map fun source => (group, source)

/-- The channels that a sink is subscribed to, in ascending order. -/
def channelsOf (t : ChannelTree) (sink : SinkId) : List Channel :=
  t.groups.toList.flatMap fun (group, branches) =>
    branches.toList.flatMap fun (source, branch) =>
      branch.toList.filterMap fun (port, sinks) =>
        if sink ∈ sinks then some ⟨group, source, port⟩ else none

/-- Every subscription, in ascending order of channels and sinks. -/
def subscriptions (t : ChannelTree) : List (Channel × SinkId) :=
  t.groups.toList.flatMap fun (group, branches) =>
    branches.toList.flatMap fun (source, branch) =>
      branch.toList.flatMap fun (port, sinks) =>
        sinks.toList.map fun sink => (⟨group, source, port⟩, sink)

def recipients (t : ChannelTree) (d : Datagram) : List SinkId :=
  let anySource := t.sinksOf ⟨d.destination, none, d.destinationPort⟩
  let ofSource := t.sinksOf ⟨d.destination, some d.source, d.destinationPort⟩
  (anySource.union ofSource).toList

/-- The tree in which the channel has these sinks. -/
def setSinks (t : ChannelTree) (c : Channel) (sinks : OrderedSet SinkId) : ChannelTree :=
  let branch := (t.branch c.group c.source).set c.port sinks.nonempty?
  let branches := (t.branches c.group).set c.source branch.nonempty?
  { t with groups := t.groups.set c.group branches.nonempty? }

def insert (t : ChannelTree) (sink : SinkId) (c : Channel) : ChannelTree :=
  t.setSinks c ((t.sinksOf c).insert sink)

def erase (t : ChannelTree) (sink : SinkId) (c : Channel) : ChannelTree :=
  t.setSinks c ((t.sinksOf c).erase sink)

/-! ## Subscribing -/

def join (control : Control ω) (sink : SinkId) (c : Channel) (t : ChannelTree) (w : ω) :
    Except ChannelError Unit × ChannelTree × ω :=
  match c.validate with
  | .error e => (.error e, t, w)
  | .ok () =>
    if (t.branch c.group c.source).isEmpty then
      match control.join c.group c.source w with
      | (.error e, w) => (.error (.membership e), t, w)
      | (.ok (), w) => (.ok (), t.insert sink c, w)
    else (.ok (), t.insert sink c, w)

/-- Ends a subscription, if there is one, and tells whether it was the last one
for its group and source. -/
def remove (t : ChannelTree) (sink : SinkId) (c : Channel) : Bool × ChannelTree :=
  if t.contains sink c then
    let t := t.erase sink c
    ((t.branch c.group c.source).isEmpty, t)
  else (false, t)

/-- Ends one subscription. A channel that the sink is not subscribed to is
passed over. -/
def leave (control : Control ω) (sink : SinkId) (c : Channel) (t : ChannelTree) (w : ω) :
    Except ChannelError Unit × ChannelTree × ω :=
  let (last, t) := t.remove sink c
  if last then
    let (result, w) := control.leave c.group c.source w
    (result.mapError .membership, t, w)
  else (.ok (), t, w)

/-- Leaves groups and sources upstream, and tells the first error. -/
def leaveBranches (control : Control ω) :
    List (Address × Option Address) → ω → Except MembershipError Unit × ω
  | [], w => (.ok (), w)
  | (group, source) :: rest, w =>
    let (first, w) := control.leave group source w
    let (others, w) := leaveBranches control rest w
    (first.bind fun _ => others, w)

/-- Ends the subscriptions of a sink to the channels, and tells the groups and
sources that have none left. -/
def removeAll (sink : SinkId) :
    List Channel → ChannelTree → List (Address × Option Address) × ChannelTree
  | [], t => ([], t)
  | c :: cs, t =>
    let (last, t) := t.remove sink c
    let (emptied, t) := removeAll sink cs t
    (if last then (c.group, c.source) :: emptied else emptied, t)

def leaveSink (control : Control ω) (sink : SinkId) (t : ChannelTree) (w : ω) :
    Except ChannelError Unit × ChannelTree × ω :=
  let (emptied, t) := removeAll sink (t.channelsOf sink) t
  let (result, w) := leaveBranches control emptied w
  (result.mapError .membership, t, w)

def flush (control : Control ω) (t : ChannelTree) (w : ω) : ChannelTree × ω :=
  let (_, w) := leaveBranches control t.joined w
  ({ t with groups := ∅, flushes := t.flushes + 1 }, w)

/-! ## Datagrams -/

structure Delivery where
  taken : Nat := 0
  /-- The sinks that are gone, in ascending order. -/
  gone : List SinkId := []
  /-- Some sink failed for good. -/
  failed : Bool := false
deriving DecidableEq, Repr

/-- Gives a datagram to the sinks, one after the other. -/
def deliverAll (deliver : Deliver ω) (d : Datagram) : List SinkId → ω → Delivery × ω
  | [], w => ({}, w)
  | sink :: sinks, w =>
    let (result, w) := deliver sink d w
    let (rest, w) := deliverAll deliver d sinks w
    match result with
    | .ok () => ({ rest with taken := rest.taken + 1 }, w)
    | .error .disconnected => ({ rest with gone := sink :: rest.gone }, w)
    | .error (.fatal _) => ({ rest with failed := true }, w)

/-- Ends the subscriptions of sinks that are gone. -/
def evict (control : Control ω) : List SinkId → ChannelTree → ω → ChannelTree × ω
  | [], t, w => (t, w)
  | sink :: sinks, t, w =>
    let (_, t, w) := leaveSink control sink { t with evictions := t.evictions + 1 } w
    evict control sinks t w

/-- Gives a datagram to every sink that it is for, and tells how many took it.
When one of them fails for good, the tree is flushed. -/
def dispatch (control : Control ω) (deliver : Deliver ω) (d : Datagram) (t : ChannelTree) (w : ω) :
    Nat × ChannelTree × ω :=
  let (delivery, w) := deliverAll deliver d (t.recipients d) w
  let t := { t with delivered := t.delivered + delivery.taken }
  let (t, w) := if delivery.failed then t.flush control w else evict control delivery.gone t w
  (delivery.taken, t, w)

end ChannelTree

end MulticastTunnel
