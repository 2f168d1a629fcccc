import MulticastTunnel.Membership.Envelope
import MulticastTunnel.Membership.ExponentialCode

/-!
# Membership queries

A query asks for all groups, for one group, or for sources of one group. It
is written as an IGMPv3 or MLDv2 message, with its times rounded down to
exponential codes; shorter messages of older versions are read too and then
stand for the default robustness and interval. Times are in milliseconds.
-/

namespace MulticastTunnel.Membership

/-- Robustness of a query that does not tell one. -/
def defaultRobustness : UInt8 := 2

/-- Query interval of a query that does not tell one. -/
def defaultQueryInterval : Nat := 125000

structure Query where
  family : Family
  /-- The longest time that an answer may wait. -/
  maxResponseDelay : Nat
  /-- The group asked for, none in a general query. -/
  group : Option Address
  suppress : Bool := false
  /-- Zero when the querier does not tell it. -/
  robustness : UInt8 := defaultRobustness
  /-- Zero when the querier does not tell it. -/
  queryInterval : Nat := defaultQueryInterval
  sources : List Address := []
deriving DecidableEq

namespace Query

open ExponentialCode

def igmpType : UInt8 := 0x11

def mldType : UInt8 := 130

def general (family : Family) (maxResponseDelay : Nat) : Query :=
  { family, maxResponseDelay, group := none }

/-- A query for a group, or for the given sources of it. -/
def ofGroup (group : Address) (sources : List Address) (maxResponseDelay : Nat) : Query :=
  { family := group.family, maxResponseDelay, group := some group, sources }

def isGeneral (q : Query) : Bool := q.group.isNone

/-- Suppression flag over the robustness, which has three bits. -/
def flags (q : Query) : UInt8 :=
  UInt8.ofNat (min q.robustness.toNat 7 + if q.suppress then 8 else 0)

/-- The message with a zero in its checksum field. IGMP counts the response
delay in tenths of a second, MLD in milliseconds. -/
def body (q : Query) : Bytes :=
  let head : Bytes := match q.family with
    | .ipv4 => [igmpType, UInt8.ofNat (short.encode (q.maxResponseDelay / 100)), 0, 0]
    | .ipv6 => [mldType, 0, 0, 0] ++ Bytes.ofWord16 (long.encode q.maxResponseDelay) ++ [0, 0]
  head ++ (q.group.getD (.unspecified q.family)).octets ++
    [q.flags, UInt8.ofNat (short.encode (q.queryInterval / 1000))] ++
    Bytes.ofWord16 q.sources.length ++ writeAddresses q.sources

def toPacket (q : Query) (source destination : Address) : Except CodecError Packet :=
  match source, destination, q.family with
  | .v4 s, .v4 d, .ipv4 => wrap (.v4 s d) q.body
  | .v6 s, .v6 d, .ipv6 => wrap (.v6 s d) q.body
  | _, _, _ => .error .familyMismatch

/-- The group that an address in a query names; the unspecified one names none. -/
def groupOf (a : Address) : Option Address := if a.isUnspecified then none else some a

/-- The fields behind the group: flags, interval, sources. -/
def readTail (family : Family) (maxResponseDelay : Nat) (group : Option Address) (body : Bytes)
    (start : Nat) : Except CodecError Query :=
  let tail : Bytes := body.drop start
  let flags := (tail.octet 0).toNat
  let count := tail.word16 2
  if tail.length < 4 + count * family.addressLength then .error (.truncated body.length)
  else
    .ok {
      family
      maxResponseDelay
      group
      suppress := flags / 8 % 2 = 1
      robustness := UInt8.ofNat (flags % 8)
      queryInterval := short.decode (tail.octet 1).toNat * 1000
      sources := readAddresses family count (tail.drop 4) }

/-- IGMP of all versions. In the oldest a zero code stands for ten seconds. -/
def readIgmp (body : Bytes) : Except CodecError Query :=
  if body.length < 8 then .error (.truncated body.length)
  else
    let code := (body.octet 1).toNat
    let group := groupOf (.read .ipv4 (body.drop 4))
    if body.length < 12 then
      .ok { family := .ipv4, maxResponseDelay := (if code = 0 then 100 else code) * 100, group }
    else readTail .ipv4 (short.decode code * 100) group body 8

/-- MLD of both versions. The older one counts plain milliseconds. -/
def readMld (body : Bytes) : Except CodecError Query :=
  if body.length < 24 then .error (.truncated body.length)
  else
    let code := body.word16 4
    let group := groupOf (.read .ipv6 (body.drop 8))
    if body.length < 28 then .ok { family := .ipv6, maxResponseDelay := code, group }
    else readTail .ipv6 (long.decode code) group body 24

def ofPacket (p : Packet) : Except CodecError Query := do
  let body ← unwrap igmpType mldType p
  match p.family with
  | .ipv4 => readIgmp body
  | .ipv6 => readMld body

end Query

end MulticastTunnel.Membership
