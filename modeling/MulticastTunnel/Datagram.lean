import MulticastTunnel.Packet.Build

/-!
# UDP datagrams

The datagram in a complete packet, and the packet around a datagram. A length
field that does not fit the segment is passed over when reading; written
checksums are never zero.
-/

namespace MulticastTunnel

structure Datagram where
  source : Address
  sourcePort : UInt16
  destination : Address
  destinationPort : UInt16
  payload : Bytes
deriving DecidableEq

namespace Datagram

def headerLength : Nat := 8

def parse (p : Packet) : Except PacketError Datagram :=
  let segment := p.payload
  if p.protocol ≠ Protocol.udp ∨ p.isFragment then .error .notUdp
  else if segment.length < headerLength then .error (.truncated segment.length)
  else
    let length := segment.word16 4
    let stop := if headerLength ≤ length ∧ length ≤ segment.length then length else segment.length
    .ok {
      source := p.source
      sourcePort := UInt16.ofNat (segment.word16 0)
      destination := p.destination
      destinationPort := UInt16.ofNat (segment.word16 2)
      payload := (segment.take stop).drop headerLength }

/-- The UDP segment with the given value in its checksum field. -/
def segment (d : Datagram) (sum : Nat) : Bytes :=
  .ofWord16 d.sourcePort.toNat ++ .ofWord16 d.destinationPort.toNat ++
    .ofWord16 (headerLength + d.payload.length) ++ .ofWord16 sum ++ d.payload

/-- The checksum over pseudo-header and segment; zero is written as all ones. -/
def checksum (d : Datagram) (addresses : AddressPair) : Nat :=
  let length := headerLength + d.payload.length
  let pseudo := Checksum.pseudoHeader addresses Protocol.udp length
  let sum := (((({} : Checksum).add pseudo).add (d.segment 0)).finish).toNat
  if sum = 0 then 65535 else sum

def toPacket (d : Datagram) (ttl : UInt8) : Except PacketError Packet :=
  if maxDatagramLength < headerLength + d.payload.length then .error .tooLarge
  else
    match AddressPair.of? d.source d.destination with
    | none => .error .familyMismatch
    | some addresses =>
      let segment := d.segment (d.checksum addresses)
      match addresses with
      | .v4 s t => Packet.buildV4 s t Protocol.udp ttl [] segment
      | .v6 s t => Packet.buildV6 s t Protocol.udp ttl none segment

end Datagram

end MulticastTunnel
